import LlamaOS.Fs.FileChains

/-!
# The loops of `read` and `write`

A turn of a loop moves the bytes of one cluster. Together the turns move a range of the
file's bytes.
-/

namespace LlamaOS.Fs
open ByteBuffer BlockChain Fs.Geometry Fat32Filesystem

section Writing

variable {fs fs' : Fat32Filesystem} {cs : List Nat}

theorem fillBuffer_ok (hready : Ready fs) {curr : Nat} (hcurr : fs.geo.Usable curr) (o n : Nat)
    (buf : Buffer) :
    ∃ buf' fs', fs.fillBuffer curr o n buf = (buf', fs') ∧ Became fs fs.dev.bytes fs' ∧
      (o > 0 ∨ n < fs.geo.bytesPerCluster → buf' = (fs.geo.view fs.dev.bytes).data curr) := by
  unfold fillBuffer
  split
  · obtain ⟨fs', hread, hfs'⟩ := hready.became.readCluster_ok hcurr.1 (hready.hasCluster hcurr)
    rw [hread]
    exact ⟨_, fs', rfl, hfs', fun _ => rfl⟩
  · rename_i hwhole
    exact ⟨buf, fs, rfl, hready.became, fun h => absurd h hwhole⟩

theorem Progress.put (hready : Ready fs) (hchain : ChainOf fs.geo fs.dev.bytes cs) {j c o : Nat}
    (hj : cs[j]? = some c) {bytes : List (BitVec 8)}
    (ho : o + bytes.length ≤ fs.geo.bytesPerCluster) {buf : Buffer}
    (hbuf : ∀ i < fs.geo.bytesPerCluster, i < o ∨ o + bytes.length ≤ i →
      buf i = (fs.geo.view fs.dev.bytes).data c i)
    (hbecame : Became fs (fs.geo.setCluster c (patch buf o bytes) fs.dev.bytes) fs') :
    Progress fs fs' cs cs (j * fs.geo.bytesPerCluster + o) bytes := by
  have hg := hready.geo
  have hc := hchain.usable c (List.mem_of_getElem? hj)
  refine ⟨hbecame.geo, hbecame.ready, ?_, hchain.usable, ?_⟩
  · rw [hbecame.bytes]
    apply Wrote.put hg.size_pos hchain.linked hchain.nodup hchain.usable hj ho
    · intro e he
      exact fatEntry_setCluster hg _ _ he.2
    · intro i hi
      rw [setCluster_data_self c _ _ hi]
      by_cases hin : o ≤ i ∧ i < o + bytes.length
      · rw [if_pos hin, patch_inside buf hin.1 hin.2, List.getD_eq_getElem?_getD,
          List.getElem?_eq_getElem (by omega)]
        rfl
      · rw [if_neg hin, patch_outside buf (by omega), hbuf i hi (by omega)]
    · intro e he hne i hi
      exact setCluster_data_of_ne hg _ _ hc.1 he.1 hne hi
  · rw [hbecame.bytes]
    exact fun h => h.setCluster hg c _

/-- The loop writes a beginning of the source, at least one byte of it. -/
theorem writeLoop_ok (fuel : Nat) {fs : Fat32Filesystem} {cs : List Nat} {j curr o : Nat}
    (src : List (BitVec 8)) (buf : Buffer) (hready : Ready fs)
    (hchain : ChainOf fs.geo fs.dev.bytes cs) (hj : cs[j]? = some curr)
    (ho : o < fs.geo.bytesPerCluster) (hsrc : src ≠ []) (hfuel : src.length ≤ fuel) :
    ∃ n fs' cs', Fat32Filesystem.writeLoop fuel curr src o buf fs = (n, fs') ∧ 0 < n ∧
      n ≤ src.length ∧ Progress fs fs' cs cs' (j * fs.geo.bytesPerCluster + o) (src.take n) ∧
      (n < src.length → fs'.Full ∧ j * fs.geo.bytesPerCluster + o + n =
        cs'.length * fs.geo.bytesPerCluster) := by
  induction fuel generalizing fs cs j curr o src buf with
  | zero => exact absurd (List.length_eq_zero_iff.mp (Nat.le_zero.mp hfuel)) hsrc
  | succ fuel ih =>
    have hpos := List.length_pos_iff.mpr hsrc
    have hcurr := hchain.usable curr (List.mem_of_getElem? hj)
    have hrange := hready.geo.range
    obtain ⟨buf₁, fs₁, hfill, hfs₁, hbuf₁⟩ := fillBuffer_ok hready hcurr o src.length buf
    rw [writeLoop, if_pos ⟨hpos, hcurr.1, by have := hcurr.2; omega⟩]
    simp only [hfill, hfs₁.geo]
    -- the bytes of this turn
    generalize hchunk : (if fs.geo.bytesPerCluster - o > src.length then src.length
      else fs.geo.bytesPerCluster - o) = chunk
    have hle : chunk ≤ src.length := by split at hchunk <;> omega
    have hone : 0 < chunk := by split at hchunk <;> omega
    have htake : (src.take chunk).length = chunk := by rw [List.length_take]; omega
    obtain ⟨fs₂, hwrite, hfs₂⟩ := hfs₁.writeCluster_ok hcurr.1 (hready.hasCluster hcurr)
      (patch buf₁ o (src.take chunk))
    have hput : Progress fs fs₂ cs cs (j * fs.geo.bytesPerCluster + o) (src.take chunk) := by
      apply Progress.put hready hchain hj (by split at hchunk <;> omega) _ hfs₂
      intro i hi hout
      rw [hbuf₁ (by rw [htake] at hout; split at hchunk <;> omega)]
    simp only [hwrite]
    by_cases hmore : src.length - chunk > 0
    · rw [if_pos hmore]
      obtain ⟨next, fs₃, cs₃, hnext, hstep, hindex⟩ := nextOrAlloc_ok hput.ready hput.chain hj
        (j * fs.geo.bytesPerCluster + o + (src.take chunk).length)
      simp only [hnext]
      have hprogress := hput.trans hstep
      rw [List.append_nil] at hprogress
      have hwhole : o + chunk = fs.geo.bytesPerCluster := by split at hchunk <;> omega
      have hstart : (j + 1) * fs.geo.bytesPerCluster = j * fs.geo.bytesPerCluster + o + chunk := by
        rw [Nat.succ_mul]
        omega
      rcases hindex with ⟨hsmall, hfull, hlen⟩ | ⟨hlarge, hindex⟩
      · rw [if_pos hsmall]
        exact ⟨chunk, fs₃, cs₃, rfl, hone, hle, hprogress, fun _ => ⟨hfull, by rw [hlen, hstart]⟩⟩
      rw [if_neg (by omega)]
      obtain ⟨n, fs', cs', hloop, hn, hnle, hrest, hcut⟩ := ih (o := 0) (src.drop chunk)
        (patch buf₁ o (src.take chunk)) hprogress.ready hprogress.chain hindex
        hprogress.ready.geo.size_pos (by rw [← List.length_pos_iff, List.length_drop]; exact hmore)
        (by rw [List.length_drop]; omega)
      rw [List.length_drop] at hnle hcut
      rw [hprogress.geo, Nat.add_zero, hstart] at hrest hcut
      simp only [hloop]
      refine ⟨chunk + n, fs', cs', rfl, by omega, by omega, ?_, ?_⟩
      · rw [List.take_add]
        exact hprogress.trans (by rw [htake]; exact hrest)
      · intro hlt
        rw [← Nat.add_assoc]
        exact hcut (by omega)
    · rw [if_neg hmore]
      exact ⟨chunk, fs₂, cs, rfl, hone, hle, hput, fun hlt => by omega⟩

end Writing

section Reading

variable {fs : Fat32Filesystem} {d : Buffer} {cs : List Nat}

theorem readSeek_ok (hchain : ChainOf fs.geo d cs) (left : Nat) {fs₁ : Fat32Filesystem}
    {j curr : Nat} (hops : Nat) (hfs₁ : Became fs d fs₁) (hj : cs[j]? = some curr)
    (hlt : j + left < cs.length) (hhops : hops + left ≤ fs.geo.totalClusters) :
    ∃ curr' fs', Fat32Filesystem.readSeek left curr hops fs₁ = (curr', hops + left, fs') ∧
      Became fs d fs' ∧ cs[j + left]? = some curr' := by
  induction left generalizing fs₁ j curr hops with
  | zero => exact ⟨curr, fs₁, rfl, hfs₁, hj⟩
  | succ left ih =>
    have hcurr := hchain.usable curr (List.mem_of_getElem? hj)
    have hrange := hfs₁.valid.range
    have hnext : cs[j + 1]? = some cs[j + 1] := List.getElem?_eq_getElem (by omega)
    have hlink : fs.geo.fatEntry d curr = cs[j + 1] := hchain.linked.next j _ _ hj hnext
    obtain ⟨fs₂, hread, hfs₂⟩ := hfs₁.readFatEntry_ok (hfs₁.hasLink hcurr.2)
    obtain ⟨curr', fs', hseek, hfs', hj'⟩ := ih (hops + 1) hfs₂ hnext (by omega) (by omega)
    refine ⟨curr', fs', ?_, hfs', ?_⟩
    · rw [readSeek, if_pos ⟨hcurr.1, by have := hcurr.2; omega⟩, if_neg (by rw [hfs₁.geo]; omega)]
      simp only [hread, hlink, hseek, Prod.mk.injEq, true_and, and_true]
      omega
    · rw [show j + (left + 1) = j + 1 + left by omega]
      exact hj'

theorem slice_byteAt {g : Geometry} (hg : g.Valid) {d : Buffer} {cs : List Nat} {j c o k : Nat}
    (hj : cs[j]? = some c) (hk : o + k ≤ g.bytesPerCluster) {i : Nat} (hi : i < k) :
    (slice ((g.view d).data c) o k)[i]? = byteAt g.bytesPerCluster (g.view d) cs
      (j * g.bytesPerCluster + o + i) := by
  have hdiv : (j * g.bytesPerCluster + o + i) / g.bytesPerCluster = j := by
    rw [Nat.add_assoc, Nat.mul_comm, Nat.mul_add_div hg.size_pos, Nat.div_eq_of_lt (by omega),
      Nat.add_zero]
  have hmod : (j * g.bytesPerCluster + o + i) % g.bytesPerCluster = o + i := by
    rw [Nat.add_assoc, Nat.mul_comm, Nat.mul_add_mod, Nat.mod_eq_of_lt (by omega)]
  rw [byteAt, hdiv, hmod, hj, slice, List.getElem?_map, List.getElem?_range hi, Option.map_some,
    Option.map_some]

theorem readLoop_zero (fuel curr o hops : Nat) (fs : Fat32Filesystem) :
    Fat32Filesystem.readLoop fuel curr 0 o hops fs = ([], fs) := by
  cases fuel with
  | zero => rfl
  | succ fuel => rw [readLoop, if_neg (fun h => Nat.lt_irrefl 0 h.1)]

theorem readLoop_ok (hchain : ChainOf fs.geo d cs) (fuel : Nat) {fs₁ : Fat32Filesystem} {j o : Nat}
    (curr left hops : Nat) (hfs₁ : Became fs d fs₁) (hj : 0 < left → cs[j]? = some curr)
    (ho : o < fs.geo.bytesPerCluster)
    (hfits : j * fs.geo.bytesPerCluster + o + left ≤ cs.length * fs.geo.bytesPerCluster)
    (hfuel : left ≤ fuel) (hhops : hops + (cs.length - j) ≤ fs.geo.totalClusters) :
    ∃ bytes fs', Fat32Filesystem.readLoop fuel curr left o hops fs₁ = (bytes, fs') ∧
      bytes.length = left ∧ ∀ i < left, bytes[i]? =
        byteAt fs.geo.bytesPerCluster (fs.geo.view d) cs (j * fs.geo.bytesPerCluster + o + i) := by
  induction fuel generalizing fs₁ j o curr left hops with
  | zero => exact ⟨[], fs₁, rfl, by rw [List.length_nil]; omega, fun i hi => by omega⟩
  | succ fuel ih =>
    rw [readLoop]
    by_cases hleft : 0 < left
    · have hcurr := hj hleft
      have husable := hchain.usable curr (List.mem_of_getElem? hcurr)
      have hlt := (List.getElem?_eq_some_iff.mp hcurr).1
      have hrange := hfs₁.valid.range
      obtain ⟨fs₂, hread, hfs₂⟩ := hfs₁.readCluster_ok husable.1 (hfs₁.hasCluster husable)
      rw [if_pos ⟨hleft, husable.1, by have := husable.2; omega⟩]
      simp only [hread, hfs₂.geo]
      generalize hchunk : (if fs.geo.bytesPerCluster - o > left then left
        else fs.geo.bytesPerCluster - o) = chunk
      have hle : chunk ≤ left := by split at hchunk <;> omega
      have hone : 0 < chunk := by split at hchunk <;> omega
      have hroom : o + chunk ≤ fs.geo.bytesPerCluster := by split at hchunk <;> omega
      rw [if_neg (by omega)]
      obtain ⟨fs₃, hentry, hfs₃⟩ := hfs₂.readFatEntry_ok (hfs₂.hasLink husable.2)
      simp only [hentry]
      -- after a full cluster the next one follows at its start
      have hnext : 0 < left - chunk → cs[j + 1]? = some (fs.geo.fatEntry d curr) := by
        intro hmore
        have hfull : o + chunk = fs.geo.bytesPerCluster := by split at hchunk <;> omega
        have hindex : j + 1 < cs.length := by
          apply Nat.lt_of_mul_lt_mul_right (a := fs.geo.bytesPerCluster)
          rw [Nat.succ_mul]
          omega
        have hget : cs[j + 1]? = some cs[j + 1] := List.getElem?_eq_getElem hindex
        rw [hget, ← hchain.linked.next j _ _ hcurr hget]
      by_cases hmore : 0 < left - chunk
      · have hfull : o + chunk = fs.geo.bytesPerCluster := by split at hchunk <;> omega
        have hstart :
            (j + 1) * fs.geo.bytesPerCluster + 0 = j * fs.geo.bytesPerCluster + o + chunk := by
          rw [Nat.succ_mul]
          omega
        obtain ⟨rest, fs', hloop, hlen, hbytes⟩ := ih (j := j + 1) (o := 0)
          (fs.geo.fatEntry d curr) (left - chunk) (hops + 1) hfs₃ hnext hfs₃.valid.size_pos
          (by rw [hstart]; omega) (by omega) (by omega)
        simp only [hloop]
        refine ⟨_, fs', rfl, ?_, ?_⟩
        · rw [List.length_append, slice_length, hlen]
          omega
        · intro i hi
          by_cases hfirst : i < chunk
          · rw [List.getElem?_append_left (by rw [slice_length]; exact hfirst)]
            exact slice_byteAt hfs₁.valid hcurr hroom hfirst
          rw [List.getElem?_append_right (by rw [slice_length]; omega), slice_length,
            hbytes (i - chunk) (by omega), hstart]
          congr 1
          omega
      · simp only [show left - chunk = 0 by omega, readLoop_zero, List.append_nil]
        refine ⟨_, fs₃, rfl, ?_, ?_⟩
        · rw [slice_length]
          omega
        · intro i hi
          exact slice_byteAt hfs₁.valid hcurr hroom (by omega)
    · rw [if_neg (by omega)]
      exact ⟨[], fs₁, rfl, by rw [List.length_nil]; omega, fun i hi => by omega⟩

theorem read_ok (hready : Ready fs) {node : Fat32VNode}
    (hchain : ChainOf fs.geo fs.dev.bytes cs) (hfile : node.type = .file)
    (hfirst : cs[0]? = some node.firstCluster) {offset n : Nat} (hn : 0 < n)
    (hsize : offset + n ≤ node.fileSize) (hsmall : node.fileSize < 2 ^ 32)
    (hfits : offset + n ≤ cs.length * fs.geo.bytesPerCluster) :
    ∃ bytes fs', fs.read node offset n = ((n : Int), bytes, fs') ∧ bytes.length = n ∧
      ∀ i < n, bytes[i]? = byteAt fs.geo.bytesPerCluster (fs.geo.view fs.dev.bytes) cs
        (offset + i) := by
  have hg := hready.geo
  have hindex : offset / fs.geo.bytesPerCluster < cs.length :=
    (Nat.div_lt_iff_lt_mul hg.size_pos).mpr (by omega)
  have hdiv : offset / fs.geo.bytesPerCluster % 2 ^ 32 = offset / fs.geo.bytesPerCluster :=
    Nat.mod_eq_of_lt (Nat.lt_of_le_of_lt (Nat.div_le_self _ _) (by omega))
  have hsplit :
      offset / fs.geo.bytesPerCluster * fs.geo.bytesPerCluster + offset % fs.geo.bytesPerCluster =
      offset := by
    rw [Nat.mul_comm]
    exact Nat.div_add_mod _ _
  have hlength := hchain.length_le
  obtain ⟨buf, fs₁, halloc, hfs₁⟩ := hready.became.kmalloc_ok
  obtain ⟨curr, fs₂, hseek, hfs₂, hcurr⟩ := readSeek_ok hchain (offset / fs.geo.bytesPerCluster)
    0 hfs₁ hfirst (by omega) (by omega)
  rw [Nat.zero_add] at hseek hcurr
  obtain ⟨bytes, fs₃, hloop, hlen, hbytes⟩ := readLoop_ok hchain n
    (j := offset / fs.geo.bytesPerCluster) (o := offset % fs.geo.bytesPerCluster) curr n
    (offset / fs.geo.bytesPerCluster) hfs₂ (fun _ => hcurr) (Nat.mod_lt _ hg.size_pos)
      (by rw [hsplit]; exact hfits)
    (Nat.le_refl _) (by omega)
  rw [hsplit] at hbytes
  refine ⟨bytes, fs₃, ?_, hlen, hbytes⟩
  rw [Fat32Filesystem.read, if_neg (by simp [hfile]), if_neg (by omega)]
  simp only [halloc, hdiv, hseek]
  rw [add64_eq (by omega), if_neg (by omega)]
  simp only [hloop, hlen]

end Reading

end LlamaOS.Fs
