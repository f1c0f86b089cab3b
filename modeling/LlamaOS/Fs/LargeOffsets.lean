import LlamaOS.Fs.FileTruncation

/-!
# Large offsets

`write` narrows the cluster index and the size of the file to 32 bits. It goes wrong as soon
as it stores a byte at or behind 2³², and only then.
-/

namespace LlamaOS.Fs
open ByteBuffer BlockChain Fs.Geometry Fat32Filesystem

def Fat32Filesystem.freeClusters (fs : Fat32Filesystem) : List Nat :=
  (List.range' 2 fs.geo.totalClusters).filter fun c => fs.geo.fatEntry fs.dev.bytes c = 0

/-- How many of `count` bytes find room from the place of the offset on. -/
def Fat32Filesystem.room (fs : Fat32Filesystem) (file : List Nat) (offset count : Nat) : Nat :=
  min count ((file.length + fs.freeClusters.length) * fs.geo.bytesPerCluster - fs.geo.place offset)

section Offsets

variable {fs fs' : Fat32Filesystem} {chains : Set (List Nat)} {node node' : Fat32VNode}
  {file file' : List Nat} {offset : Nat} {src bytes : List (BitVec 8)} {r : Int}

theorem mem_freeClusters {c : Nat} :
    c ∈ fs.freeClusters ↔ fs.geo.Usable c ∧ fs.geo.fatEntry fs.dev.bytes c = 0 := by
  rw [freeClusters, List.mem_filter, mem_range_iff_usable, decide_eq_true_iff]

theorem Progress.length_le (h : Progress fs fs' file file' offset bytes) :
    file'.length ≤ file.length + fs.freeClusters.length := by
  obtain ⟨new, hnew, hfree⟩ := h.wrote.grown
  have hnodup := h.wrote.nodup
  rw [hnew, List.nodup_append] at hnodup
  rw [hnew, List.length_append]
  exact Nat.add_le_add_left
    (List.subperm_of_subset hnodup.2.1 fun c hc => mem_freeClusters.mpr (hfree c hc)).length_le _

/-- Once the volume is full the file has taken every cluster that was free. -/
theorem Progress.length_of_full (h : Progress fs fs' file file' offset bytes)
    (hchain : ChainOf fs.geo fs.dev.bytes file) (hfull : fs'.Full) :
    file'.length = file.length + fs.freeClusters.length := by
  apply Nat.le_antisymm h.length_le
  obtain ⟨new, hnew, _⟩ := h.wrote.grown
  have hsub : fs.freeClusters ⊆ new := by
    intro c hc
    obtain ⟨husable, hzero⟩ := mem_freeClusters.mp hc
    have hin : c ∈ file' := by
      by_contra hout
      have hlink : fs.geo.fatEntry fs'.dev.bytes c = _ := (h.wrote.others c husable hout).1
      rw [Fat32Filesystem.Full, h.geo] at hfull
      exact hfull c husable (hlink.trans hzero)
    rw [hnew, List.mem_append] at hin
    exact hin.resolve_left fun hold => hchain.live hold hzero
  have hnodup : fs.freeClusters.Nodup := List.Nodup.filter _ List.nodup_range'
  rw [hnew, List.length_append]
  exact Nat.add_le_add_left (List.subperm_of_subset hnodup hsub).length_le _

/-- `write` stores all that there is room for. -/
theorem Ends.count (h : Ends fs fs' node node' file offset src r)
    (hchain : ChainOf fs.geo fs.dev.bytes file) :
    r = -1 ∧ fs.room file offset src.length = 0 ∨
      r = fs.room file offset src.length ∧ 0 < fs.room file offset src.length := by
  unfold room
  cases h with
  | failed progress full short =>
    rw [progress.length_of_full hchain full] at short
    exact Or.inl ⟨rfl, by omega⟩
  | @stored n fs₁ file' pos le progress cut =>
    have hlen := Nat.mul_le_mul_right fs.geo.bytesPerCluster progress.length_le
    have htake : (src.take n).length = n := by rw [List.length_take, Nat.min_eq_left le]
    have hfits : fs.geo.place offset + n ≤ file'.length * fs.geo.bytesPerCluster := by
      rcases progress.wrote.fits with hnil | hfits
      · rw [hnil, List.length_nil] at htake
        omega
      · rwa [htake] at hfits
    refine Or.inr ?_
    by_cases hall : n < src.length
    · obtain ⟨hfull, hend⟩ := cut hall
      rw [progress.length_of_full hchain hfull] at hend
      omega
    · omega

/-- What a write may do to the file: the bytes before the offset stay, and a write of `n` bytes
records the size. -/
structure WriteSound (fs fs' : Fat32Filesystem) (node node' : Fat32VNode) (file : List Nat)
    (offset : Nat) (r : Int) :
    Prop where
  before : ∃ file', OwnsChain fs' node'.firstCluster file' ∧ ∀ p < node.fileSize, p < offset →
    ∀ b, fs.fileByte file p = some b → fs'.fileByte file' p = some b
  size : ∀ n : Nat, r = n → 0 < n → node'.fileSize = max node.fileSize (offset + n) ∧
    entryFileSize ((fs'.geo.view fs'.dev.bytes).data node'.dirCluster) node'.dirOffset =
      max node.fileSize (offset + n)

theorem Written.sound {fs₁ : Fat32Filesystem}
    (h : Written fs fs₁ fs' node node' file file' offset bytes) (hwf : WellFormed fs chains)
    (hstep : InStep fs chains node file) (hbound : offset + bytes.length < 2 ^ 32) :
    WriteSound fs fs' node node' file offset bytes.length := by
  have hstep' := h.inStep hwf hstep hbound
  have hsize : node'.fileSize = max node.fileSize (offset + bytes.length) := by rw [h.vnode]
  refine ⟨⟨file', hstep'.ownsChain (h.wellFormed hwf hstep), ?_⟩, ?_⟩
  · intro p _ hp b hb
    exact h.fileByte_kept hwf hstep (Or.inl hp) hb
  · intro n hn _
    rw [hstep'.entrySize, ← Int.ofNat_inj.mp hn]
    exact ⟨hsize, hsize⟩

/-- A write is sound just where it stores nothing or all that it stores lies below 2³². -/
theorem write_sound_iff (hwf : WellFormed fs chains) (hstep : InStep fs chains node file)
    (offset : Nat) (src : List (BitVec 8)) :
    (∀ r node' fs', fs.write node offset (some src) = (r, node', fs') →
        WriteSound fs fs' node node' file offset r) ↔
      fs.room file offset src.length = 0 ∨ offset + fs.room file offset src.length < 2 ^ 32 := by
  have hchain := hstep.fileChain hwf
  have hsmall := hstep.fileSize_lt
  constructor
  · intro hall
    by_contra hlarge
    have hsrc : src ≠ [] := by
      rintro rfl
      exact hlarge (Or.inl (Nat.zero_min _))
    rcases hrun : fs.write node offset (some src) with ⟨r, node', fs'⟩
    have hends := write_ends hwf hstep hsrc hrun
    have hsound := hall r node' fs' hrun
    have hcount := hends.count hchain
    cases hends with
    | failed => omega
    | @stored n fs₁ file' pos le progress cut entry first vnode =>
      have hsize := (hsound.size n rfl pos).1
      rw [vnode] at hsize
      dsimp only at hsize
      split at hsize <;> omega
  · intro hroom r node' fs' hrun
    by_cases hsrc : src = []
    · subst hsrc
      rw [write, if_neg (not_not.mpr hstep.type), if_pos List.length_nil] at hrun
      obtain ⟨rfl, rfl, rfl⟩ := hrun
      exact ⟨⟨file, hstep.ownsChain hwf, fun p _ _ b hb => hb⟩, fun n hn hpos => by omega⟩
    have hends := write_ends hwf hstep hsrc hrun
    have hcount := hends.count hchain
    cases hends with
    | @failed file' progress full short first =>
      refine ⟨⟨file', progress.chain.ownsChain progress.ready first, ?_⟩, fun n hn => by omega⟩
      intro p _ _ b hb
      have hinside := lt_of_byteAt hwf.ready.geo.size_pos hb
      have hgrown := Nat.mul_le_mul_right fs.geo.bytesPerCluster progress.wrote.length_le
      have hbyte := progress.wrote.contents p (by omega)
      rw [if_neg (by rw [List.length_nil]; omega), if_pos hinside] at hbyte
      rw [fileByte, progress.geo]
      exact hbyte.trans hb
    | @stored n =>
      obtain ⟨_, hle, fs₁, file', h⟩ := write_written hwf hstep hsrc (n := n) (by omega) hrun
      have hlen : (src.take n).length = n := by rw [List.length_take, Nat.min_eq_left hle]
      have hsound := h.sound hwf hstep (by omega)
      rwa [hlen] at hsound

end Offsets

/-- The cluster index of 2⁴¹ is narrowed to 0, and its size to 1. -/
theorem smallFile_write_wraps : (smallVolume.write smallFile (2 ^ 41) (some [7])).1 = 1 ∧
    smallVolume.fileByte [3] 0 = some 0 ∧
    (smallVolume.write smallFile (2 ^ 41) (some [7])).2.2.fileByte [3] 0 = some 7 ∧
    ¬ WriteSound smallVolume (smallVolume.write smallFile (2 ^ 41) (some [7])).2.2 smallFile
      (smallVolume.write smallFile (2 ^ 41) (some [7])).2.1 [3] (2 ^ 41) 1 := by
  refine ⟨by decide +kernel, by decide +kernel, by decide +kernel, ?_⟩
  intro h
  have hsize := (h.size 1 rfl Nat.one_pos).1
  have hone : (smallVolume.write smallFile (2 ^ 41) (some [7])).2.1.fileSize = 1 := by
    decide +kernel
  exact absurd hsize (by decide)

theorem smallFile_write_sound : (smallVolume.write smallFile 510 (some [1, 2, 3, 4, 5])).1 = 5 ∧
    WriteSound smallVolume (smallVolume.write smallFile 510 (some [1, 2, 3, 4, 5])).2.2 smallFile
      (smallVolume.write smallFile 510 (some [1, 2, 3, 4, 5])).2.1 [3] 510 5 := by
  have hcount : (smallVolume.write smallFile 510 (some [1, 2, 3, 4, 5])).1 = 5 := by decide +kernel
  exact ⟨hcount, (write_sound_iff smallVolume_wellFormed smallFile_inStep 510 [1, 2, 3, 4, 5]).mpr
    (Or.inr (by decide +kernel)) _ _ _ (Prod.ext hcount rfl)⟩

end LlamaOS.Fs
