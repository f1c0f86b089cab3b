import LlamaOS.Memory.HeapBlocks

/-!
# The steps of the heap keep its blocks apart

`kmalloc` takes pages that no block lies in, cuts them into blocks, and hands out the top block of a
bin or a run of pages. `kfree` finds the header it wrote and puts the block back on its freelist or
gives its pages back.
-/

namespace LlamaOS.Memory
open ByteBuffer WordBitset WordBitset.Bitset LinkedStack Regions Regions.Region
  PhysicalMemoryManager

namespace Heap

variable {p₀ : PhysicalMemoryManager} {h : Heap} {live : List Allocation} {lists : Nat → List Nat}
variable {loose : List Region}

/-- The step from `h` to `h'` takes only frames in the direct map. -/
def TakesDirect (h h' : Heap) : Prop :=
  ∀ f, h.pmm.bitmap.test f = false → h'.pmm.bitmap.test f = true → f < 0x80000

variable {count : Nat}

theorem allocKernelPages_eq (hcount : count ≠ 0) (hpa : (h.pmm.allocPages count).1 ≠ 0) :
    h.allocKernelPages count = (physToVirt (h.pmm.allocPages count).1,
      { h with
        pmm := (h.pmm.allocPages count).2
        lowUsed := allocPages_keeps count h.lowUsed
        mem :=
          memset h.mem (physToVirt (h.pmm.allocPages count).1) (count * pageSize % 2 ^ 64) }) := by
  unfold allocKernelPages
  rw [if_neg hcount]
  rw [if_neg hpa]

theorem Owned.mono {p p' : PhysicalMemoryManager} {a : Nat} (h : Owned p₀ p a)
    (hkeep : ∀ f, p.bitmap.test f = true → p'.bitmap.test f = true) : Owned p₀ p' a :=
  { h with taken := hkeep _ h.taken }

theorem Sound.fresh (hs : Sound p₀ h live lists loose) (hcount : 0 < count)
    (hptr : (h.allocKernelPages count).1 ≠ 0)
    (hdirect : h.TakesDirect (h.allocKernelPages count).2) :
    Sound p₀ (h.allocKernelPages count).2 live lists
      (⟨(h.allocKernelPages count).1, count * 4096⟩ :: loose) ∧
      (h.allocKernelPages count).1 % 4096 = 0 ∧ count ≤ 0x80000 ∧
      ∀ a, Region.Has ⟨(h.allocKernelPages count).1, count * 4096⟩ a →
        h.pmm.bitmap.test ((a - kernelVirtualBase) / 4096) = false := by
  have hne : count ≠ 0 := Nat.pos_iff_ne_zero.mp hcount
  have hpa : (h.pmm.allocPages count).1 ≠ 0 := by
    intro hzero
    rw [allocKernelPages_fst h hne, if_pos hzero] at hptr
    exact hptr rfl
  rw [allocKernelPages_eq hne hpa] at hdirect ⊢
  rcases h.pmm.allocPages_cases count with hnone | ⟨s, htake, hsome⟩
  · rw [hnone] at hpa
    exact absurd rfl hpa
  have hfst : (h.pmm.allocPages count).1 = s * 4096 := by rw [hsome, takeRun_fst htake]
  have hset : ∀ f, (h.pmm.allocPages count).2.bitmap.test f =
      (decide (s ≤ f ∧ f < s + count) || h.pmm.bitmap.test f) := by
    intro f
    rw [hsome]
    unfold takeRun
    exact test_setRange _ _ _ _ htake.inside
  have hlast : s + count ≤ 0x80000 := by
    have hclear := htake.clear (s + count - 1) (by omega) (by omega)
    have hlt := hdirect (s + count - 1) hclear (by
      rw [hset, decide_eq_true (by omega), Bool.true_or])
    omega
  have hvirt : physToVirt (h.pmm.allocPages count).1 = s * 4096 + kernelVirtualBase := by
    rw [hfst]
    exact add64_eq (by simp only [kernelVirtualBase]; omega)
  have haligned : (s * 4096 + kernelVirtualBase) % 4096 = 0 := by
    rw [Nat.mul_add_mod_self_right]; rfl
  have hbytes : count * pageSize % 2 ^ 64 = count * 4096 :=
    Nat.mod_eq_of_lt (by simp only [pageSize]; omega)
  have hframe : ∀ a, Region.Has ⟨physToVirt (h.pmm.allocPages count).1, count * 4096⟩ a →
      kernelVirtualBase ≤ a ∧ a < 2 ^ 64 ∧ s ≤ (a - kernelVirtualBase) / 4096 ∧
        (a - kernelVirtualBase) / 4096 < s + count := by
    rintro a ⟨hlo, hhi⟩
    simp only [kernelVirtualBase] at *
    omega
  have hpages : Sound p₀ { h with
      pmm := (h.pmm.allocPages count).2
      lowUsed := allocPages_keeps count h.lowUsed } live lists
      (⟨physToVirt (h.pmm.allocPages count).1, count * 4096⟩ :: loose) := by
    have hkeep : ∀ f, h.pmm.bitmap.test f = true →
        (h.pmm.allocPages count).2.bitmap.test f = true :=
      fun f => allocPages_keeps count
    refine { hs with
      apart := allApart_cons.mpr ⟨fun r hr => ?_, hs.apart⟩
      owned := fun r hr a ha => ?_
      aligned := fun r hr => ?_
      base := fun f hf => hkeep f (hs.base f hf) }
    · refine apart_of_forall (by dsimp only; omega) (by have := (hs.aligned r hr).2; omega)
        fun a ha har => ?_
      obtain ⟨_, _, hlo, hhi⟩ := hframe a ha
      have htaken := (hs.owned r hr a har).taken
      rw [htake.clear _ hlo hhi] at htaken
      cases htaken
    · rcases List.mem_cons.mp hr with rfl | hr
      · obtain ⟨hlower, hupper, hlo, hhi⟩ := hframe a ha
        refine ⟨hlower, hupper, ?_, ?_⟩
        · by_contra hset₀
          have htaken := hs.base _ (Bool.not_eq_false _ ▸ hset₀)
          rw [htake.clear _ hlo hhi] at htaken
          cases htaken
        · rw [hset, decide_eq_true ⟨hlo, hhi⟩, Bool.true_or]
      · exact (hs.owned r hr a ha).mono hkeep
    · rcases List.mem_cons.mp hr with rfl | hr
      · dsimp only
        omega
      · exact hs.aligned r hr
  refine ⟨hpages.frame fun a ha => ?_, ?_, by omega, fun a ha => ?_⟩
  · rw [hbytes]
    exact if_neg ha
  · rw [hvirt, haligned]
  · obtain ⟨_, _, hlo, hhi⟩ := hframe a ha
    exact htake.clear _ hlo hhi

variable {page size : Nat}

theorem Sound.split (hs : Sound p₀ h live lists (⟨page, count * size⟩ :: loose))
    (haligned : page % 16 = 0) (hsize : size % 16 = 0) (hpos : 0 < size) :
    Sound p₀ h live lists (row page size count ++ loose) := by
  have hcons := allApart_cons.mp hs.apart
  have hmem : ∀ r ∈ blocks (row page size count ++ loose) live lists,
      r ∈ row page size count ∨ r ∈ blocks loose live lists := by
    intro r hr
    unfold blocks at hr ⊢
    rwa [List.append_assoc, List.mem_append] at hr
  refine { hs with apart := ?_, owned := fun r hr a ha => ?_, aligned := fun r hr => ?_ }
  · unfold blocks
    rw [List.append_assoc]
    refine List.pairwise_append.mpr ⟨row_apart page size count, hcons.2, fun r hr s hs' => ?_⟩
    obtain ⟨hlo, hhi⟩ := row_inside hr
    exact (hcons.1 s hs').part hlo hhi
  · rcases hmem r hr with hrow | hold
    · obtain ⟨hlo, hhi⟩ := row_inside hrow
      refine hs.owned ⟨page, count * size⟩ List.mem_cons_self a ⟨?_, ?_⟩
      · exact Nat.le_trans hlo ha.1
      · exact Nat.lt_of_lt_of_le ha.2 hhi
    · exact hs.owned r (List.mem_cons_of_mem _ hold) a ha
  · rcases hmem r hr with hrow | hold
    · obtain ⟨i, _, rfl⟩ := mem_row.mp hrow
      dsimp only
      rw [Nat.add_mod, Nat.mul_mod, hsize, haligned]
      omega
    · exact hs.aligned r (List.mem_cons_of_mem _ hold)

variable {bin : Nat}

theorem Sound.head_lt (hs : Sound p₀ h live lists loose) (hbin : bin < 6) :
    h.slabFreelists bin < 2 ^ 64 := by
  have hlinks := hs.links bin hbin
  cases hlist : lists bin with
  | nil =>
    rw [hlist] at hlinks
    rw [show h.slabFreelists bin = 0 from hlinks]
    decide
  | cons x xs =>
    rw [hlist] at hlinks
    rw [show h.slabFreelists bin = x from hlinks.1]
    have hmem : (⟨x, slabSize bin⟩ : Region) ∈ blocks loose live lists :=
      mem_blocks.mpr (.inr (.inr ⟨bin, hbin, x, by rw [hlist]; exact List.mem_cons_self, rfl⟩))
    have hsize := (slabSize_bounds hbin).1
    exact (hs.owned _ hmem x ⟨Nat.le_refl _, by dsimp only; omega⟩).upper

theorem Sound.top (hs : Sound p₀ h live lists loose) (hbin : bin < 6)
    (hhead : h.slabFreelists bin ≠ 0) : ∃ xs, lists bin = h.slabFreelists bin :: xs := by
  have hlinks := hs.links bin hbin
  cases hlist : lists bin with
  | nil =>
    rw [hlist] at hlinks
    exact absurd hlinks hhead
  | cons x xs =>
    rw [hlist] at hlinks
    exact ⟨xs, by rw [show h.slabFreelists bin = x from hlinks.1]⟩

theorem Sound.pushAll (hbin : bin < 6) (haligned : page % slabSize bin = 0) (is : List Nat) :
    ∀ {h : Heap} {lists : Nat → List Nat},
      Sound p₀ h live lists ((is.map fun i => ⟨page + i * slabSize bin, slabSize bin⟩) ++ loose) →
      ∃ lists', Sound p₀ (is.foldl (fun h b => h.pushNode bin (page + b * slabSize bin)) h) live
        lists' loose ∧ ∀ r ∈ blocks loose live lists',
          r ∈ blocks ((is.map fun i => ⟨page + i * slabSize bin, slabSize bin⟩) ++ loose)
            live lists := by
  induction is with
  | nil => exact fun hs => ⟨_, hs, fun _ hr => hr⟩
  | cons i is ih =>
    intro h lists hs
    have hstart : (page + i * slabSize bin) % slabSize bin = 0 := by
      rw [Nat.add_mul_mod_self_right, haligned]
    obtain ⟨lists', hs', hfrom⟩ := ih (hs.push hbin hstart (hs.head_lt hbin))
    exact ⟨lists', hs', fun r hr => mem_blocks_push (hfrom r hr)⟩

theorem Sound.replenish (hs : Sound p₀ h live lists (⟨page, 4096⟩ :: loose)) (hbin : bin < 6)
    (hpage : page % 4096 = 0) : ∃ lists', Sound p₀ (h.replenish bin page) live lists' loose ∧
      ∀ r ∈ blocks loose live lists', r ∈ row page (slabSize bin) (pageSize / slabSize bin) ∨
        r ∈ blocks loose live lists := by
  obtain ⟨hlow, _, hmul, hdiv⟩ := slabSize_bounds hbin
  have hrow : pageSize / slabSize bin * slabSize bin = 4096 :=
    Nat.div_mul_cancel (Nat.dvd_of_mod_eq_zero hdiv)
  rw [← hrow] at hs
  have hsplit := hs.split (by omega) (by omega) (by omega)
  have hstart : page % slabSize bin = 0 := by
    have hdvd : slabSize bin ∣ page :=
      (Nat.dvd_of_mod_eq_zero hdiv).trans (Nat.dvd_of_mod_eq_zero hpage)
    exact Nat.mod_eq_zero_of_dvd hdvd
  obtain ⟨lists', hs', hfrom⟩ := Sound.pushAll hbin hstart _ hsplit
  refine ⟨lists', hs', fun r hr => ?_⟩
  have hold := hfrom r hr
  unfold blocks at hold ⊢
  rwa [List.append_assoc, List.mem_append] at hold

theorem pushNode_head (h : Heap) (bin node : Nat) :
    (h.pushNode bin node).slabFreelists bin = node := by
  unfold pushNode
  dsimp only
  rw [Function.update_self]

theorem replenish_head (hbin : bin < 6) (hpage : page ≠ 0) :
    (h.replenish bin page).slabFreelists bin ≠ 0 := by
  obtain ⟨hlow, hhigh, _, hdiv⟩ := slabSize_bounds hbin
  obtain ⟨n, hn⟩ : ∃ n, pageSize / slabSize bin = n + 1 := by
    have hpos : 0 < pageSize / slabSize bin :=
      Nat.div_pos (by simp only [pageSize]; omega) (by omega)
    exact ⟨pageSize / slabSize bin - 1, by omega⟩
  unfold Heap.replenish
  rw [hn, List.range_succ, List.foldl_append, List.foldl_cons, List.foldl_nil, pushNode_head]
  omega

theorem writeHeader_loads (mem : Buffer) (header size pageCount slabBin : Nat)
    (hcount : pageCount < 256 ^ 4) (hbin : slabBin < 256 ^ 1) :
    let mem' := patch mem header
      (leBytes 4 allocMagic ++ leBytes 4 size ++ leBytes 4 pageCount ++ leBytes 1 slabBin)
    loadLe mem' header 4 = allocMagic ∧ loadLe mem' (header + 8) 4 = pageCount ∧
      loadLe mem' (header + 12) 1 = slabBin := by
  intro mem'
  have hbytes : HasBytes mem' header
      (leBytes 4 allocMagic ++ leBytes 4 size ++ leBytes 4 pageCount ++ leBytes 1 slabBin) :=
    hasBytes_patch _ _ _
  refine ⟨hbytes.left.left.left.loadLe.trans (by decide), ?_, ?_⟩
  · exact hbytes.left.right.loadLe.trans (Nat.mod_eq_of_lt hcount)
  · exact hbytes.right.loadLe.trans (Nat.mod_eq_of_lt hbin)

theorem Sound.handOut {header asked pageCount slabBin : Nat}
    (hs : Sound p₀ h live lists (⟨header, blockLength size⟩ :: loose))
    (hroom : size + 16 ≤ blockLength size) (hcount : pageCount < 256 ^ 4) (hbin : slabBin < 256 ^ 1)
    (hslab : ∀ bin, findSlabBin (totalNeeded size) = some bin → slabBin = bin ∧
      header % slabSize bin = 0)
    (hpages : findSlabBin (totalNeeded size) = none → slabBin = 0xFF ∧
      pageCount = pageCountFromBytes (totalNeeded size) ∧ header % 4096 = 0) :
    Sound p₀ (h.writeHeader header asked pageCount slabBin) (⟨header + 16, size⟩ :: live)
      lists loose := by
  have hblock : (⟨header + 16, size⟩ : Allocation).block = ⟨header, blockLength size⟩ := rfl
  have hheader : (⟨header + 16, size⟩ : Allocation).header = header := rfl
  have hframe : Sound p₀ (h.writeHeader header asked pageCount slabBin) live lists
      (⟨header, blockLength size⟩ :: loose) := by
    refine hs.frame fun a ha => patch_outside _ ?_
    have hlen : (leBytes 4 allocMagic ++ leBytes 4 asked ++ leBytes 4 pageCount ++
      leBytes 1 slabBin).length = 13 := rfl
    unfold Has at ha
    dsimp only at ha
    omega
  obtain ⟨hmagic, hpage, hbyte⟩ :=
    writeHeader_loads h.mem header asked pageCount slabBin hcount hbin
  refine Sound.allot (a := ⟨header + 16, size⟩) hframe
    ⟨hmagic, fun bin hsome => ?_, fun hnone => ?_⟩ ⟨?_, hroom⟩
  · obtain ⟨rfl, haligned⟩ := hslab bin hsome
    exact ⟨hbyte, haligned⟩
  · obtain ⟨rfl, rfl, haligned⟩ := hpages hnone
    exact ⟨hbyte, hpage, haligned⟩
  · exact Nat.le_add_left _ _

end Heap

end LlamaOS.Memory
