import LlamaOS.Memory.HeapSteps

/-!
# Runs of the heap

Clients allocate, write into their own blocks and free what they hold, in any order. Headers, links
and user data share the same bytes over time, but at each moment every byte has one role.
-/

namespace LlamaOS.Memory
open ByteBuffer WordBitset WordBitset.Bitset LinkedStack Regions Regions.Region
  PhysicalMemoryManager

namespace Heap

variable {p₀ : PhysicalMemoryManager} {h : Heap} {live : List Allocation} {lists : Nat → List Nat}
variable {loose : List Region} {a : Allocation} {x : Nat}

/-- The first byte of the mark. -/
def markByte : BitVec 8 := 0x4D

variable {mem : Buffer}

theorem markByte_of_magic (h : loadLe mem x 4 = allocMagic) : mem x = markByte := by
  have hlow : loadLe mem x 4 = (mem x).toNat + 256 * loadLe mem (x + 1) 3 := rfl
  apply BitVec.eq_of_toNat_eq
  have hmagic : allocMagic = 77 + 256 * 5000257 := rfl
  have hbyte : markByte.toNat = 77 := rfl
  omega

variable {bin : Nat}

theorem pushNode_mark {node : Nat} (hx : x % 64 = 0) (hnode : node % 64 = 0)
    (hhead : h.slabFreelists bin % 64 = 0) (hmark : (h.pushNode bin node).mem x = markByte) :
    h.mem x = markByte := by
  change patch h.mem node (leBytes 8 (h.slabFreelists bin)) x = markByte at hmark
  by_cases heq : x = node
  · subst heq
    rw [patch_inside _ (Nat.le_refl _) (by rw [leBytes_length]; omega), Nat.sub_self] at hmark
    have hbyte : h.slabFreelists bin % 256 = 77 := congrArg BitVec.toNat hmark
    omega
  · rwa [patch_outside _ (by rw [leBytes_length]; omega)] at hmark

variable {page : Nat}

theorem replenish_mark (hbin : bin < 6) (hx : x % 64 = 0) (hpage : page % 64 = 0)
    (hhead : h.slabFreelists bin % 64 = 0) (hmark : (h.replenish bin page).mem x = markByte) :
    h.mem x = markByte := by
  have hfold : ∀ (is : List Nat) (h : Heap), h.slabFreelists bin % 64 = 0 →
      (is.foldl (fun h b => h.pushNode bin (page + b * slabSize bin)) h).mem x = markByte →
        h.mem x = markByte := by
    intro is
    induction is with
    | nil => exact fun _ _ hmark => hmark
    | cons i is ih =>
      intro h hhead hmark
      have hnode : (page + i * slabSize bin) % 64 = 0 := by
        rw [Nat.add_mod, Nat.mul_mod, hpage, (slabSize_bounds hbin).2.2.1]
        rfl
      refine pushNode_mark hx hnode hhead (ih (h.pushNode bin _) ?_ hmark)
      rw [pushNode_head, hnode]
  exact hfold _ h hhead hmark

variable {count : Nat}

theorem allocKernelPages_mark (hmark : (h.allocKernelPages count).2.mem x = markByte) :
    h.mem x = markByte := by
  by_cases hcount : count = 0
  · rwa [allocKernelPages, if_pos hcount] at hmark
  by_cases hpa : (h.pmm.allocPages count).1 = 0
  · unfold allocKernelPages at hmark
    rwa [if_neg hcount, if_pos hpa] at hmark
  rw [allocKernelPages_eq hcount hpa] at hmark
  dsimp only [memset] at hmark
  split at hmark
  · cases hmark
  · exact hmark

variable {size : Nat}

theorem writeHeader_mark {header pageCount slabBin : Nat} (hx : x % 64 = 0)
    (hheader : header % 64 = 0) (hne : header ≠ x)
    (hmark : (h.writeHeader header size pageCount slabBin).mem x = markByte) :
    h.mem x = markByte := by
  have hlen : (leBytes 4 allocMagic ++ leBytes 4 size ++ leBytes 4 pageCount ++
    leBytes 1 slabBin).length = 13 := rfl
  have houtside : x < header ∨ header + 13 ≤ x := by omega
  exact (patch_outside _ (hlen ▸ houtside)).symm.trans hmark

theorem Sound.head_aligned (hs : Sound p₀ h live lists loose) (hbin : bin < 6) :
    h.slabFreelists bin % 64 = 0 := by
  by_cases hhead : h.slabFreelists bin = 0
  · rw [hhead]
  obtain ⟨xs, hlist⟩ := hs.top hbin hhead
  have haligned := hs.slabs bin hbin _ (by rw [hlist]; exact List.mem_cons_self)
  have hdvd :=
    (Nat.dvd_of_mod_eq_zero (slabSize_bounds hbin).2.2.1).trans (Nat.dvd_of_mod_eq_zero haligned)
  exact Nat.mod_eq_zero_of_dvd hdvd

theorem blockLength_slab (hbin : findSlabBin (totalNeeded size) = some bin) :
    blockLength size = slabSize bin := by
  unfold blockLength
  rw [hbin]

theorem blockLength_pages (hbin : findSlabBin (totalNeeded size) = none) :
    blockLength size = pageCountFromBytes (totalNeeded size) * 4096 := by
  unfold blockLength
  rw [hbin, pageSize]

theorem blockLength_ge (size : Nat) : 64 ≤ blockLength size := by
  cases hbin : findSlabBin (totalNeeded size) with
  | some bin =>
    rw [blockLength_slab hbin]
    exact (slabSize_bounds (findSlabBin_some hbin).1).1
  | none =>
    rw [blockLength_pages hbin]
    have hmany := findSlabBin_none hbin
    have hpos := @pageCountFromBytes_pos (totalNeeded size) (by omega)
    omega

theorem Sound.takeNode (hs : Sound p₀ h live lists loose) (asked : Nat)
    (hroom : size + 16 ≤ blockLength size) (hbin : findSlabBin (totalNeeded size) = some bin)
    (hhead : h.slabFreelists bin ≠ 0) :
    ∃ lists', Sound p₀ (h.takeNode bin asked).2 (⟨(h.takeNode bin asked).1, size⟩ :: live)
      lists' loose ∧
      ∀ r ∈ blocks loose (⟨(h.takeNode bin asked).1, size⟩ :: live) lists',
        r ∈ blocks loose live lists := by
  have hlt := (findSlabBin_some hbin).1
  obtain ⟨xs, hlist⟩ := hs.top hlt hhead
  have hpop := hs.pop hlt hlist
  have hblock := blockLength_slab hbin
  rw [← hblock] at hpop
  have hmem : h.slabFreelists bin ∈ lists bin := by rw [hlist]; exact List.mem_cons_self
  refine ⟨_, hpop.handOut hroom (by decide) (by omega) (fun bin' hsome => ?_) fun hnone => ?_,
    fun r hr => ?_⟩
  · obtain rfl : bin = bin' := Option.some.inj (hbin.symm.trans hsome)
    exact ⟨rfl, hs.slabs bin hlt _ hmem⟩
  · rw [hbin] at hnone
    cases hnone
  · rw [mem_blocks] at hr ⊢
    rcases hr with hr | ⟨b, hb, rfl⟩ | ⟨b, hb, x, hx, rfl⟩
    · exact .inl hr
    · rcases List.mem_cons.mp hb with rfl | hb
      · exact .inr (.inr ⟨bin, hlt, _, hmem, congrArg (Region.mk _) hblock⟩)
      · exact .inr (.inl ⟨b, hb, rfl⟩)
    refine .inr (.inr ⟨b, hb, x, ?_, rfl⟩)
    by_cases heq : b = bin
    · subst heq
      rw [Function.update_self] at hx
      rw [hlist]
      exact List.mem_cons_of_mem _ hx
    · rwa [Function.update_of_ne heq] at hx

theorem Sound.noPages (hs : Sound p₀ h live lists loose) (hcount : 0 < count)
    (hptr : (h.allocKernelPages count).1 = 0)
    (hdirect : h.TakesDirect (h.allocKernelPages count).2) :
    Sound p₀ (h.allocKernelPages count).2 live lists loose := by
  have hne : count ≠ 0 := Nat.pos_iff_ne_zero.mp hcount
  by_cases hpa : (h.pmm.allocPages count).1 = 0
  · have heq : (h.allocKernelPages count).2 = { h with
        pmm := (h.pmm.allocPages count).2
        lowUsed := allocPages_keeps count h.lowUsed } := by
      unfold allocKernelPages
      rw [if_neg hne]
      rw [if_pos hpa]
    rw [heq]
    refine hs.regroup (List.Perm.refl _) ?_ hs.slabs hs.links hs.headers hs.fits
    dsimp only
    rcases h.pmm.allocPages_cases count with hnone | ⟨s, htake, hsome⟩
    · rw [hnone]
    rw [hsome, takeRun_fst htake] at hpa
    have hclear := htake.clear 0 (by omega) (by omega)
    rw [h.lowUsed] at hclear
    cases hclear
  · -- the pointer of the run that begins at 2 GiB wraps around to null
    rw [allocKernelPages_eq hne hpa] at hptr hdirect
    dsimp only at hptr
    rcases h.pmm.allocPages_cases count with hnone | ⟨s, htake, hsome⟩
    · rw [hnone] at hpa
      exact absurd rfl hpa
    have hlt := hdirect s (htake.clear s (Nat.le_refl _) (by omega)) (by
      dsimp only
      rw [hsome]
      unfold takeRun
      rw [test_setRange _ _ _ _ htake.inside, decide_eq_true (by omega), Bool.true_or])
    rw [hsome, takeRun_fst htake] at hptr
    unfold physToVirt add64 at hptr
    simp only [kernelVirtualBase] at hptr
    omega

/-- What `kmalloc` returns joins the live blocks, unless it is null. -/
def admitted (live : List Allocation) (ptr size : Nat) : List Allocation :=
  if ptr = 0 then live else ⟨ptr, size⟩ :: live

theorem replenish_pmm (h : Heap) (bin page : Nat) : (h.replenish bin page).pmm = h.pmm := by
  have hfold : ∀ (is : List Nat) (h : Heap),
      (is.foldl (fun h b => h.pushNode bin (page + b * slabSize bin)) h).pmm = h.pmm := by
    intro is
    induction is with
    | nil => exact fun _ => rfl
    | cons i is ih => exact fun h => ih (h.pushNode bin (page + i * slabSize bin))
  exact hfold _ h

theorem admitted_takeNode (bin asked size : Nat) : admitted live (h.takeNode bin asked).1 size =
    ⟨(h.takeNode bin asked).1, size⟩ :: live := if_neg (Nat.succ_ne_zero _)

/-- The size that the block has room for: a request that wraps around is served from the smallest
bin. -/
def granted (size : Nat) : Nat := if size + 16 < 2 ^ 64 then size else 0

theorem granted_bin (hsize : size < 2 ^ 64) :
    findSlabBin (totalNeeded (granted size)) = findSlabBin (totalNeeded size) := by
  unfold granted
  split
  · rfl
  · rw [totalNeeded_wrapped hsize (by omega)]
    decide

theorem granted_room (size : Nat) : granted size + 16 ≤ blockLength (granted size) := by
  refine blockLength_room ?_
  unfold granted
  split <;> omega

/-- The blocks after `kmalloc` are blocks from before, or lie in new pages; only the block that it
returns is marked. -/
theorem Sound.kmalloc (hs : Sound p₀ h live lists []) (hsize : size < 2 ^ 64)
    (hdirect : h.TakesDirect (h.kmalloc size).2) :
    ∃ lists', Sound p₀ (h.kmalloc size).2 (admitted live (h.kmalloc size).1 (granted size))
      lists' [] ∧
      (∀ r ∈ blocks [] (admitted live (h.kmalloc size).1 (granted size)) lists',
        r ∈ blocks [] live lists ∨
        ∀ a, r.Has a → h.pmm.bitmap.test ((a - kernelVirtualBase) / 4096) = false) ∧
      ∀ x, x % 64 = 0 → (h.kmalloc size).1 ≠ x + 16 → (h.kmalloc size).2.mem x = markByte →
        h.mem x = markByte := by
  have hroom := granted_room size
  have hsame := granted_bin hsize
  unfold Heap.kmalloc at hdirect ⊢
  by_cases hzero : size = 0
  · rw [if_pos hzero]
    exact ⟨lists, hs, fun _ hr => .inl hr, fun _ _ _ hmark => hmark⟩
  rw [if_neg hzero] at hdirect ⊢
  cases hbin : findSlabBin (totalNeeded size) with
  | some bin =>
    have hlt := (findSlabBin_some hbin).1
    rw [hbin] at hdirect hsame
    dsimp only at hdirect ⊢
    by_cases hempty : h.slabFreelists bin = 0
    · rw [if_pos hempty] at hdirect ⊢
      by_cases hpage : (h.allocKernelPages 1).1 = 0
      · rw [if_pos hpage] at hdirect ⊢
        exact ⟨lists, hs.noPages Nat.one_pos hpage hdirect, fun _ hr => .inl hr,
          fun _ _ _ => allocKernelPages_mark⟩
      rw [if_neg hpage] at hdirect ⊢
      have hdirect' : h.TakesDirect (h.allocKernelPages 1).2 := fun f hclear hset =>
        hdirect f hclear (((h.allocKernelPages 1).2.replenish_pmm bin _).symm ▸ hset)
      obtain ⟨hfresh, haligned, _, hnew⟩ := hs.fresh Nat.one_pos hpage hdirect'
      obtain ⟨lists₁, hfilled, hrow⟩ := hfresh.replenish hlt haligned
      obtain ⟨lists', hs', hfrom⟩ := hfilled.takeNode size hroom hsame (replenish_head hlt hpage)
      refine ⟨lists', hs',
        fun r hr => (hrow r (hfrom r hr)).symm.imp_right fun hin a ha => hnew a ?_,
        fun x hx hne hmark => ?_⟩
      · obtain ⟨hlo, hhi⟩ := row_inside hin
        rw [Nat.div_mul_cancel (Nat.dvd_of_mod_eq_zero (slabSize_bounds hlt).2.2.2)] at hhi
        exact ⟨Nat.le_trans hlo ha.1, Nat.lt_of_lt_of_le ha.2 hhi⟩
      · have hfilled := writeHeader_mark hx (hfilled.head_aligned hlt)
          (fun heq => hne (congrArg (· + 16) heq)) hmark
        exact allocKernelPages_mark
          (replenish_mark hlt hx (by omega) (hfresh.head_aligned hlt) hfilled)
    · rw [if_neg hempty, admitted_takeNode]
      obtain ⟨lists', hs', hfrom⟩ := hs.takeNode size hroom hsame hempty
      exact ⟨lists', hs', fun r hr => .inl (hfrom r hr), fun x hx hne hmark =>
        writeHeader_mark hx (hs.head_aligned hlt) (fun heq => hne (congrArg (· + 16) heq)) hmark⟩
  | none =>
    have hmany := findSlabBin_none hbin
    have hpos := @pageCountFromBytes_pos (totalNeeded size) (by omega)
    have hgranted : granted size = size := if_pos (by
      by_contra hwrap
      rw [totalNeeded_wrapped hsize (by omega)] at hbin
      cases hbin)
    rw [hbin] at hdirect
    rw [hgranted] at hroom ⊢
    by_cases hpage : (h.allocKernelPages (pageCountFromBytes (totalNeeded size))).1 = 0
    · rw [if_pos hpage] at hdirect ⊢
      exact ⟨lists, hs.noPages hpos hpage hdirect, fun _ hr => .inl hr,
        fun _ _ _ => allocKernelPages_mark⟩
    rw [if_neg hpage] at hdirect ⊢
    obtain ⟨hfresh, haligned, hcount, hnew⟩ := hs.fresh hpos hpage hdirect
    rw [← blockLength_pages hbin] at hfresh hnew
    refine ⟨lists, hfresh.handOut hroom (by omega) (by decide) (fun bin hsome => ?_) fun _ =>
      ⟨rfl, rfl, haligned⟩, fun r hr => ?_, fun x hx hne hmark => ?_⟩
    · rw [hbin] at hsome
      cases hsome
    · rcases List.mem_cons.mp hr with rfl | hr
      · exact .inr hnew
      · exact .inl hr
    · exact allocKernelPages_mark
        (writeHeader_mark hx (by omega) (fun heq => hne (congrArg (· + 16) heq)) hmark)

theorem Sound.release (hs : Sound p₀ h live lists (⟨page, count * 4096⟩ :: loose))
    (hpage : page % 4096 = 0) (hcount : 0 < count) :
    Sound p₀ (h.freeKernelPages page count).2 live lists loose := by
  have hself : (⟨page, count * 4096⟩ : Region) ∈ blocks (⟨page, count * 4096⟩ :: loose) live
    lists := List.mem_cons_self
  have hfirst := hs.owned _ hself page ⟨Nat.le_refl _, by dsimp only; omega⟩
  have hlast :=
    hs.owned _ hself (page + count * 4096 - 1) ⟨by dsimp only; omega, by dsimp only; omega⟩
  have hlower := hfirst.lower
  have hupper := hlast.upper
  have hbase : kernelVirtualBase % 4096 = 0 := rfl
  have hpos : 0 < kernelVirtualBase := by decide
  have hpa : sub64 page kernelVirtualBase = page - kernelVirtualBase := sub64_eq hlower (by omega)
  have hrest := hs.forget
  unfold freeKernelPages
  rw [if_neg (by omega)]
  -- outside the run no frame changes
  have hkeep : ∀ f,
      ¬ ((page - kernelVirtualBase) / 4096 ≤ f ∧ f < (page - kernelVirtualBase) / 4096 + count) →
      (h.pmm.freePages (sub64 page kernelVirtualBase) count).2.bitmap.test f =
        h.pmm.bitmap.test f := by
    intro f hf
    by_contra hne
    obtain ⟨hlo, hhi⟩ := (h.pmm.freePages_only (by omega) (by omega) (by omega)) f hne
    omega
  have howned : ∀ f, (page - kernelVirtualBase) / 4096 ≤ f →
      f < (page - kernelVirtualBase) / 4096 + count → p₀.bitmap.test f = false := by
    intro f hlo hhi
    have hbyte := (hs.owned _ hself (f * 4096 + kernelVirtualBase)
      ⟨by dsimp only; omega, by dsimp only; omega⟩).fresh
    rwa [Nat.add_sub_cancel, Nat.mul_div_cancel _ (by decide)] at hbyte
  refine { hrest with owned := fun r hr a ha => ?_, base := fun f hf => ?_ }
  · have hown := hrest.owned r hr a ha
    have hlow := hown.lower
    have hother : ¬ (page ≤ a ∧ a < page + count * 4096) :=
      ((allApart_cons.mp hs.apart).1 r hr).symm.not_has ha
    refine ⟨hlow, hown.upper, hown.fresh, ?_⟩
    rw [hkeep _ (by omega)]
    exact hown.taken
  · rw [hkeep f fun ⟨hlo, hhi⟩ => by rw [howned f hlo hhi] at hf; cases hf]
    exact hs.base f hf

section

variable (hs : Sound p₀ h live lists [])
include hs

section

variable (ha : a ∈ live)
include ha

theorem Sound.header_aligned : a.header % 64 = 0 := by
  obtain ⟨_, hslab, hpages⟩ := hs.headers a ha
  cases hbin : findSlabBin (totalNeeded a.size) with
  | some bin =>
    have hsize := slabSize_bounds (findSlabBin_some hbin).1
    have hdvd :=
      (Nat.dvd_of_mod_eq_zero hsize.2.2.1).trans (Nat.dvd_of_mod_eq_zero (hslab bin hbin).2)
    exact Nat.mod_eq_zero_of_dvd hdvd
  | none =>
    have haligned := (hpages hbin).2.2
    omega

theorem Sound.ptr_lt : a.ptr < 2 ^ 64 := by
  have hlength := blockLength_ge a.size
  refine (hs.owned a.block (mem_blocks.mpr (.inr (.inl ⟨a, ha, rfl⟩))) a.ptr
    ⟨Nat.sub_le _ _, ?_⟩).upper
  change a.ptr < a.ptr - 16 + blockLength a.size
  omega

/-- The blocks after `kfree` are blocks from before; the freed one is no longer marked. -/
theorem Sound.kfree :
    ∃ lists', Sound p₀ (h.kfree a.ptr) (live.erase a) lists' [] ∧
      (∀ r ∈ blocks [] (live.erase a) lists', r ∈ blocks [a.block] (live.erase a) lists) ∧
      ∀ x, x % 64 = 0 → (h.kfree a.ptr).mem x = markByte → h.mem x = markByte ∧ x ≠ a.header := by
  have hlength := blockLength_ge a.size
  have hlow := (hs.fits a ha).1
  have hheader : sub64 a.ptr headerBytes = a.header := sub64_eq hlow (hs.ptr_lt ha)
  have hcleared : ∀ x, x % 64 = 0 → patch h.mem a.header (leBytes 4 0) x = markByte →
      h.mem x = markByte ∧ x ≠ a.header := by
    intro x hx hmark
    have hal := hs.header_aligned ha
    by_cases heq : x = a.header
    · rw [heq, patch_inside _ (Nat.le_refl _) (by rw [leBytes_length]; omega), Nat.sub_self]
        at hmark
      cases hmark
    · rw [patch_outside _ (by rw [leBytes_length]; omega)] at hmark
      exact ⟨hmark, heq⟩
  obtain ⟨hmagic, hslab, hpages⟩ := hs.headers a ha
  have hfree : Sound p₀ { h with mem := patch h.mem a.header (leBytes 4 0) } (live.erase a) lists
      (a.block :: []) := by
    refine (hs.loosen ha).frame fun b hb => patch_outside _ ?_
    have hout : ¬ (a.header ≤ b ∧ b < a.header + blockLength a.size) := hb
    rw [leBytes_length]
    omega
  have hload : ∀ off width, 4 ≤ off →
      loadLe (patch h.mem a.header (leBytes 4 0)) (a.header + off) width =
      loadLe h.mem (a.header + off) width := by
    intro off width hoff
    refine loadLe_congr fun i hi => patch_outside _ ?_
    rw [leBytes_length]
    omega
  unfold Heap.kfree
  rw [if_neg (by omega), hheader]
  dsimp only
  rw [if_neg (not_not_intro hmagic), hload 12 1 (by decide), hload 8 4 (by decide)]
  cases hbin : findSlabBin (totalNeeded a.size) with
  | some bin =>
    obtain ⟨hbyte, haligned⟩ := hslab bin hbin
    have hlt := (findSlabBin_some hbin).1
    have hblock : a.block = ⟨a.header, slabSize bin⟩ := by
      rw [Allocation.block, blockLength_slab hbin]
    rw [hblock] at hfree ⊢
    rw [hbyte, if_pos ⟨by omega, hlt⟩]
    exact ⟨_, hfree.push hlt haligned (hfree.head_lt hlt), fun _ hr => mem_blocks_push hr,
        fun x hx hmark =>
      hcleared x hx (pushNode_mark hx (hs.header_aligned ha) (hfree.head_aligned hlt) hmark)⟩
  | none =>
    obtain ⟨hbyte, hcount, haligned⟩ := hpages hbin
    have hmany := findSlabBin_none hbin
    have hpos := @pageCountFromBytes_pos (totalNeeded a.size) (by omega)
    have hblock : a.block = ⟨a.header, pageCountFromBytes (totalNeeded a.size) * 4096⟩ := by
      rw [Allocation.block, blockLength_pages hbin]
    rw [hblock] at hfree
    rw [hbyte, hcount, if_neg (fun h => h.1 rfl), if_pos hpos]
    refine ⟨lists, hfree.release haligned hpos, fun _ hr => List.mem_cons_of_mem _ hr,
      fun x hx hmark => hcleared x hx ?_⟩
    unfold freeKernelPages at hmark
    split at hmark
    · exact hmark
    · exact hmark

/-- A client changes bytes of its own block only. -/
structure Writes (h : Heap) (a : Allocation) (mem : Buffer) : Prop where
  outside : ∀ b, ¬ (a.ptr ≤ b ∧ b < a.ptr + a.size) → mem b = h.mem b

theorem Sound.write (hwrites : h.Writes a mem) : Sound p₀ { h with mem } live lists [] := by
  obtain ⟨hlow, hroom⟩ := hs.fits a ha
  have hptr : a.ptr = a.header + 16 := by unfold Allocation.header; omega
  have hloose : Sound p₀ { h with mem } (live.erase a) lists (a.block :: []) := by
    refine (hs.loosen ha).frame fun b hb => hwrites.outside b ?_
    have hout : ¬ (a.header ≤ b ∧ b < a.header + blockLength a.size) := hb
    omega
  have hheader : Header mem a := (hs.headers a ha).congr fun i hi => hwrites.outside _ (by omega)
  exact (hloose.allot hheader ⟨hlow, hroom⟩).perm_live (List.perm_cons_erase ha).symm

end

end

/-- A heap and its live blocks, from an empty heap over the pages of `p₀`. -/
inductive Run (p₀ : PhysicalMemoryManager) : Heap → List Allocation → Prop
  | start (h : Heap) (hpmm : h.pmm = p₀) (hempty : ∀ bin, h.slabFreelists bin = 0) : Run p₀ h []
  | kmalloc {h : Heap} {live : List Allocation} {size : Nat} (run : Run p₀ h live)
      (hsize : size ≤ 2 ^ 63) (hdirect : h.TakesDirect (h.kmalloc size).2) :
      Run p₀ (h.kmalloc size).2 (admitted live (h.kmalloc size).1 size)
  | kfree {h : Heap} {live : List Allocation} {a : Allocation} (run : Run p₀ h live)
      (ha : a ∈ live) : Run p₀ (h.kfree a.ptr) (live.erase a)
  | write {h : Heap} {live : List Allocation} {a : Allocation} {mem : Buffer} (run : Run p₀ h live)
      (ha : a ∈ live) (hwrites : h.Writes a mem) : Run p₀ { h with mem } live

theorem Run.sound (run : Run p₀ h live) : ∃ lists, Sound p₀ h live lists [] := by
  induction run with
  | start h hpmm hempty =>
    have hnone : blocks [] [] (fun _ => []) = [] := rfl
    refine ⟨fun _ => [], ?_, ?_, ?_, ?_, fun bin _ => hempty bin, ?_, ?_, fun f hf => hpmm ▸ hf⟩
    · exact List.Pairwise.nil
    · exact fun r hr => absurd (hnone ▸ hr) List.not_mem_nil
    · exact fun r hr => absurd (hnone ▸ hr) List.not_mem_nil
    · exact fun _ _ _ hx => absurd hx List.not_mem_nil
    · exact fun _ ha => absurd ha List.not_mem_nil
    · exact fun _ ha => absurd ha List.not_mem_nil
  | kmalloc run hsize hdirect ih =>
    obtain ⟨lists, hs⟩ := ih
    obtain ⟨lists', hs', _⟩ := hs.kmalloc (by omega) hdirect
    rw [show granted _ = _ from if_pos (by omega)] at hs'
    exact ⟨lists', hs'⟩
  | kfree run ha ih =>
    obtain ⟨lists, hs⟩ := ih
    obtain ⟨lists', hs', _⟩ := hs.kfree ha
    exact ⟨lists', hs'⟩
  | write run ha hwrites ih =>
    obtain ⟨lists, hs⟩ := ih
    exact ⟨lists, hs.write ha hwrites⟩

theorem Sound.nodup (hs : Sound p₀ h live lists loose) (hbin : bin < 6) : (lists bin).Nodup := by
  have hfree := (List.pairwise_append.mp (List.pairwise_append.mp hs.apart).2.1).2.1
  have hlist :=
    List.pairwise_map.mp ((List.pairwise_flatMap.mp hfree).1 bin (List.mem_range.mpr hbin))
  refine hlist.imp fun {x y} hapart heq => ?_
  have hsize := (slabSize_bounds hbin).1
  unfold Apart at hapart
  dsimp only at hapart
  omega

/-- In every state of every run the live blocks are aligned, have room for what was asked for, lie
with their headers apart from each other and from all free blocks, in frames the heap holds; each
freelist is a finite list of different blocks of its bin. -/
theorem Run.blocks_kept (run : Run p₀ h live) : ∃ lists : Nat → List Nat,
    (∀ a ∈ live, a.ptr % 16 = 0 ∧ a.size ≤ blockLength a.size - headerBytes) ∧
    AllApart (blocks [] live lists) ∧
    (∀ r ∈ blocks [] live lists, ∀ x, r.Has x → Owned p₀ h.pmm x) ∧
    ∀ bin < 6, Links (fun x => loadLe h.mem x 8) 0 (h.slabFreelists bin) (lists bin) ∧
      (lists bin).Nodup ∧ ∀ x ∈ lists bin, x % slabSize bin = 0 := by
  obtain ⟨lists, hs⟩ := run.sound
  refine ⟨lists, fun a ha => ⟨?_, ?_⟩, hs.apart, hs.owned,
    fun bin hbin => ⟨hs.links bin hbin, hs.nodup hbin, hs.slabs bin hbin⟩⟩
  · have haligned := (hs.aligned a.block (mem_blocks.mpr (.inr (.inl ⟨a, ha, rfl⟩)))).1
    have hlow := (hs.fits a ha).1
    change (a.ptr - 16) % 16 = 0 at haligned
    omega
  · have hroom := (hs.fits a ha).2
    unfold headerBytes
    omega

theorem takesDirect_of_length {h' : Heap} (hlength : h'.pmm.bitmap.words.length ≤ 8192) :
    h.TakesDirect h' := by
  intro f _ hset
  by_contra hhigh
  have hword : h'.pmm.bitmap.word (f / 64) = 0#64 := List.getD_eq_default _ _ (by omega)
  rw [test_eq_getLsbD, hword, BitVec.getLsbD_zero] at hset
  cases hset

theorem sampleHeap_two_blocks : ∃ h live, live.length = 2 ∧ Run samplePmm h live ∧
    ∃ lists, AllApart (blocks [] live lists) := by
  have hfirst := Run.kmalloc (Run.start sampleHeap rfl fun _ => rfl) (show 100 ≤ 2 ^ 63 by decide)
    (takesDirect_of_length (by decide +kernel))
  have hsecond :=
    Run.kmalloc hfirst (show 5000 ≤ 2 ^ 63 by decide) (takesDirect_of_length (by decide +kernel))
  obtain ⟨lists, _, hapart, _⟩ := Run.blocks_kept hsecond
  exact ⟨_, _, by decide +kernel, hsecond, lists, hapart⟩

end Heap

end LlamaOS.Memory
