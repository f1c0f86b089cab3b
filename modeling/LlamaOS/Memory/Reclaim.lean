import LlamaOS.Memory.Tenancy
import LlamaOS.Memory.FailedMaps

/-!
# Giving a space back

`destroy_user_address_space` frees every frame of the space exactly once: after its
nested loops only frames that are not the space's own are still borrowed.
-/

namespace LlamaOS.Memory
open RadixForest VirtualAddress PageTableEntry VirtualMemoryManager PageFlags

namespace System
variable {s : System}

/-- The teardown of `root` after the positions in `D`. -/
structure Reclaimed (args : BootArgs) (p₀ : PhysicalMemoryManager) (rest : Finset Nat) (s : System)
    (root : Nat) (D : List (Fin 512) → Prop) (m : Machine) : Prop where
  torn : Torn s root m
  kept : ∀ {p t i}, s.Occupied root p t → p.length = 3 → Lower p → ¬ D (p ++ [i]) →
    m.ram t i = s.ram t i
  account : ∃ frames, Borrowed args p₀ m.pmm frames ∧ ∀ a, a ∈ frames ↔
    (∃ q, (q = [] ∨ Lower q) ∧ ¬ D q ∧ s.Occupied root q a) ∨ a ∈ rest

variable {p : List (Fin 512)} {t : Nat}

namespace Reclaimed
variable {args : BootArgs} {p₀ : PhysicalMemoryManager} {rest : Finset Nat} {root : Nat}
variable {D D' : List (Fin 512) → Prop} {m : Machine}

theorem skip (h : Reclaimed args p₀ rest s root D m) (hD : ∀ q, D q → D' q)
    (hnone : ∀ q a, D' q → s.Occupied root q a → D q) : Reclaimed args p₀ rest s root D' m := by
  refine ⟨h.torn, fun ht hlen hlow hnot => h.kept ht hlen hlow fun hd => hnot (hD _ hd), ?_⟩
  obtain ⟨frames, hb, hmem⟩ := h.account
  refine ⟨frames, hb, fun a => (hmem a).trans ?_⟩
  apply or_congr_left
  constructor
  · rintro ⟨q, hq, hnot, ha⟩
    exact ⟨q, hq, fun hd => hnot (hnone q a hd ha), ha⟩
  · rintro ⟨q, hq, hnot, ha⟩
    exact ⟨q, hq, fun hd => hnot (hD q hd), ha⟩

section Free
variable (hs : s.Inv) (hrest : ∀ a ∈ rest, ¬ s.Private root a)
include hs hrest

theorem free (h : Reclaimed args p₀ rest s root D m) {q : List (Fin 512)} {a : Nat}
    (hq : q = [] ∨ Lower q) (hnot : ¬ D q) (ha : s.Occupied root q a) :
    Reclaimed args p₀ rest s root (fun x => D x ∨ x = q) (m.freePage a) := by
  refine ⟨h.torn.free ⟨q, hq, ha⟩, fun ht hlen hlow hn => h.kept ht hlen hlow fun hd => hn
    (Or.inl hd), ?_⟩
  obtain ⟨frames, hb, hmem⟩ := h.account
  have hmine : a ∈ frames := (hmem a).mpr (Or.inl ⟨q, hq, hnot, ha⟩)
  refine ⟨frames.erase a, hb.release hmine, fun b => ?_⟩
  rw [Finset.mem_erase, hmem b]
  constructor
  · rintro ⟨hne, ⟨q', hq', hn, hb'⟩ | hr⟩
    · refine Or.inl ⟨q', hq', ?_, hb'⟩
      rintro (hd | rfl)
      · exact hn hd
      · exact hne (Option.some.inj (hb'.follows.symm.trans ha.follows))
    · exact Or.inr hr
  · rintro (⟨q', hq', hn, hb'⟩ | hr)
    · refine ⟨?_, Or.inl ⟨q', hq', fun hd => hn (Or.inl hd), hb'⟩⟩
      rintro rfl
      exact hn (Or.inr (hs.root_eq hb' ha hq').2)
    · refine ⟨?_, Or.inr hr⟩
      rintro rfl
      exact hrest b hr ⟨q, hq, ha⟩

end Free

theorem clearLeaf (h : Reclaimed args p₀ rest s root D m) {i : Fin 512} (ht : s.Occupied root p t)
    (hlen : p.length = 3) (hlow : Lower p) (hs : s.Inv) (hD : D (p ++ [i])) :
    Reclaimed args p₀ rest s root D (m.write t i .clear) := by
  refine ⟨h.torn.clearLeaf ht hlen hlow i, ?_, h.account⟩
  intro q t' j ht' hlen' hlow' hnot
  have hne : ¬ (t' = t ∧ j = i) := by
    rintro ⟨rfl, rfl⟩
    obtain ⟨rfl, _⟩ := hs.separated ht' ht
    exact hnot hD
  exact (write_of_ne _ hne).trans (h.kept ht' hlen' hlow' hnot)

end Reclaimed

def Below (p q : List (Fin 512)) : Prop := ∃ i, p ++ [i] <+: q

/-- The teardown of the table at `p` finishes every position below it. -/
def Reclaims (args : BootArgs) (p₀ : PhysicalMemoryManager) (rest : Finset Nat) (s : System)
    (root : Nat) (inner : Nat → Machine → Option Machine) (p : List (Fin 512)) (t : Nat) : Prop :=
  ∀ (D : List (Fin 512) → Prop) (m : Machine), (∀ q, Below p q → ¬ D q) →
    Reclaimed args p₀ rest s root D m →
    ∃ m', inner t m = some m' ∧ Reclaimed args p₀ rest s root (fun q => D q ∨ Below p q) m'

section Loops
variable {args : BootArgs} {p₀ : PhysicalMemoryManager} {base extra rest : Finset Nat} {root : Nat}
variable (h : Tenancy args p₀ base extra root s) (hrest : ∀ a ∈ rest, ¬ s.Private root a)
include h

variable {m : Machine}

theorem Tenancy.canAccess_torn (ht : Torn s root m) (hocc : s.Occupied root p t)
    (hlen : p.length ≤ 3) (hp : p = [] ∨ Lower p) : m.canAccess t = true :=
  (ht.canAccess_eq h.inv h.live h.idle t).trans (h.access hocc hlen hp)

include hrest

theorem reclaims_destroyPt {pt : Nat} (hpt : s.Occupied root p pt) (hlen : p.length = 3)
    (hlow : Lower p) : Reclaims args p₀ rest s root destroyPt p pt := by
  intro D m hD hm
  have hacc := h.canAccess_torn hm.torn hpt (by omega) (Or.inr hlow)
  unfold destroyPt
  rw [if_neg (by rw [hacc]; decide)]
  have hloop := MonadicFold.total (P := fun done b =>
      Reclaimed args p₀ rest s root (fun q => D q ∨ ∃ i ∈ done, p ++ [i] = q) b)
    (l := List.finRange 512) (List.nodup_finRange 512) (b := m)
    (f := fun m l => if (m.ram pt l).isPresent then
      some ((m.freePage (m.ram pt l).physicalAddress).write pt l .clear) else some m) ?_ ?_
  · obtain ⟨m', hfold, hm'⟩ := hloop
    refine ⟨m', hfold, hm'.skip ?_ ?_⟩
    · rintro q (hd | ⟨i, _, rfl⟩)
      · exact Or.inl hd
      · exact Or.inr ⟨i, List.prefix_refl _⟩
    · rintro q a (hd | ⟨i, u, rfl⟩) hocc
      · exact Or.inl hd
      · have hu : u = [] := by
          have hq := hocc.tracked
          rcases hq with ⟨_, hle⟩ | ⟨_, heq, _⟩
          · simp only [List.length_append, List.length_singleton] at hle
            omega
          · simp only [List.length_append, List.length_singleton] at heq
            exact List.length_eq_zero_iff.mp (by omega)
        subst hu
        exact Or.inr ⟨i, List.mem_finRange i, by rw [List.append_nil]⟩
  · intro done i b _ hi hb
    have hnot : ¬ (D (p ++ [i]) ∨ ∃ j ∈ done, p ++ [j] = p ++ [i]) := by
      rintro (hd | ⟨j, hj, heq⟩)
      · exact hD _ ⟨i, List.prefix_refl _⟩ hd
      · have hji : j = i := by simpa using heq
        exact hi (hji ▸ hj)
    have hentry := hb.kept hpt hlen hlow hnot
    have hgrow : ∀ q, (D q ∨ ∃ j ∈ done, p ++ [j] = q) ∨ q = p ++ [i] ↔ D q ∨ ∃ j ∈ done ++ [i],
        p ++ [j] = q := by
      intro q
      simp only [List.mem_append, List.mem_singleton, or_and_right, exists_or,
        exists_eq_left, or_assoc]
      rw [eq_comm (a := q)]
    rw [hentry]
    by_cases hp : (s.ram pt i).isPresent = true
    · have hpage := occupied_below h.live hpt (by omega) (lower_snoc hlow i) hp (by omega)
      have hfreed := hb.free h.inv hrest (Or.inr (lower_snoc hlow i)) hnot hpage
      rw [if_pos hp]
      refine ⟨_, rfl, ?_⟩
      have hdone := hfreed.skip (fun q => (hgrow q).mp) (fun q a hq _ => (hgrow q).mpr hq)
      exact hdone.clearLeaf hpt hlen hlow h.inv (Or.inr ⟨i, by simp, rfl⟩)
    rw [if_neg hp]
    refine ⟨b, rfl, hb.skip (fun q hq => (hgrow q).mp (Or.inl hq)) ?_⟩
    intro q a hq hocc
    rcases (hgrow q).mpr hq with hd | rfl
    · exact hd
    · have hf := hocc.follows
      rw [follow_snoc hpt.follows i, next_of_not_present (Bool.not_eq_true _ ▸ hp)] at hf
      cases hf
  · exact hm.skip (fun q => Or.inl) (by rintro q a (hd | ⟨i, hi, _⟩) _; exacts [hd, by cases hi])

variable {inner : Nat → Machine → Option Machine}

theorem reclaimed_loop (ht : s.Occupied root p t) (hlen : p.length ≤ 2) {l : List (Fin 512)}
    (hl : l.Nodup) (hlow : ∀ i ∈ l, Lower (p ++ [i]))
    (hinner : ∀ {i t'}, Lower (p ++ [i]) → s.Occupied root (p ++ [i]) t' →
      Reclaims args p₀ rest s root inner (p ++ [i]) t')
    {c : PageTableEntry → Bool} (hcond : ∀ i ∈ l, c (s.ram t i) = (s.ram t i).isPresent)
    {D : List (Fin 512) → Prop} (hD : ∀ i ∈ l, ∀ q, p ++ [i] <+: q → ¬ D q)
    (hm : Reclaimed args p₀ rest s root D m) :
    ∃ m', l.foldlM (fun m k =>
        if c (m.ram t k) then do
          let m ← inner (m.ram t k).physicalAddress m
          return m.freePage (m.ram t k).physicalAddress
        else some m) m = some m' ∧
      Reclaimed args p₀ rest s root (fun q => D q ∨ ∃ i ∈ l, p ++ [i] <+: q) m' := by
  refine MonadicFold.total (P := fun done b =>
    Reclaimed args p₀ rest s root (fun q => D q ∨ ∃ i ∈ done, p ++ [i] <+: q) b) hl ?_ ?_
  · intro done i b hi hfresh hb
    have hnot : ∀ q, p ++ [i] <+: q → ¬ (D q ∨ ∃ j ∈ done, p ++ [j] <+: q) := by
      rintro q hq (hd | ⟨j, hj, hjq⟩)
      · exact hD i hi q hq hd
      · have heq : p ++ [j] = p ++ [i] := by
          apply (List.prefix_of_prefix_length_le hjq hq (by simp)).eq_of_length
          simp
        have hji : j = i := by simpa using heq
        exact hfresh (hji ▸ hj)
    have hgrow : ∀ q, (D q ∨ ∃ j ∈ done, p ++ [j] <+: q) ∨ p ++ [i] <+: q ↔
        D q ∨ ∃ j ∈ done ++ [i], p ++ [j] <+: q := by
      intro q
      simp only [List.mem_append, List.mem_singleton, or_and_right, exists_or,
        exists_eq_left, or_assoc]
    rw [hb.torn.ram_eq h.inv ht hlen i, hcond i hi]
    by_cases hp : (s.ram t i).isPresent = true
    · have hplain : p.length = 2 → (s.ram t i).isHuge = false :=
        fun _ => h.plain ht hlen (hlow i hi)
      have hbelow := occupied_below h.live ht (by omega) (hlow i hi) hp hplain
      have hsub : ∀ q, Below (p ++ [i]) q → p ++ [i] <+: q := by
        rintro q ⟨j, hq⟩
        exact (List.prefix_append _ _).trans hq
      obtain ⟨b₁, hrun, hb₁⟩ := hinner (hlow i hi) hbelow _ _ (fun q hq => hnot q (hsub q hq)) hb
      have hself :
          ¬ ((D (p ++ [i]) ∨ ∃ j ∈ done, p ++ [j] <+: p ++ [i]) ∨ Below (p ++ [i]) (p ++ [i])) := by
        rintro (hd | ⟨j, hq⟩)
        · exact hnot _ (List.prefix_refl _) hd
        · have hle := hq.length_le
          simp at hle
      have hfreed := hb₁.free h.inv hrest (Or.inr (hlow i hi)) hself hbelow
      have hentry := hb₁.torn.ram_eq h.inv ht hlen i
      rw [if_pos hp, hrun]
      refine ⟨b₁.freePage (b₁.ram t i).physicalAddress, rfl, ?_⟩
      rw [hentry]
      apply hfreed.skip
      · rintro q ((hd | hq) | rfl)
        · exact (hgrow q).mp (Or.inl hd)
        · exact (hgrow q).mp (Or.inr (hsub q hq))
        · exact (hgrow _).mp (Or.inr (List.prefix_refl _))
      · intro q a hq _
        rcases (hgrow q).mpr hq with hd | ⟨u, rfl⟩
        · exact Or.inl (Or.inl hd)
        · cases u with
          | nil => exact Or.inr (List.append_nil _)
          | cons j u => exact Or.inl (Or.inr ⟨j, u, by simp⟩)
    · rw [if_neg hp]
      refine ⟨b, rfl, hb.skip (fun q hq => (hgrow q).mp (Or.inl hq)) ?_⟩
      intro q a hq hocc
      rcases (hgrow q).mpr hq with hd | ⟨u, rfl⟩
      · exact hd
      · have hf := hocc.follows
        rw [follow_append, follow_snoc ht.follows i, next_of_not_present (Bool.not_eq_true _ ▸ hp)]
          at hf
        cases hf
  · exact hm.skip (fun q => Or.inl) (by rintro q a (hd | ⟨i, hi, _⟩) _; exacts [hd, by cases hi])

theorem reclaims_destroyBelow {depth : Nat} (hdepth : depth ≤ 2)
    (hinner : ∀ {p t}, p.length = depth + 1 → Lower p → s.Occupied root p t →
      Reclaims args p₀ rest s root inner p t)
    (hlen : p.length = depth) (hlow : Lower p) (ht : s.Occupied root p t) :
    Reclaims args p₀ rest s root (destroyBelow inner) p t := by
  intro D m hD hm
  have hacc := h.canAccess_torn hm.torn ht (by omega) (Or.inr hlow)
  obtain ⟨m', hrun, hm'⟩ := reclaimed_loop h hrest ht (by omega) (List.nodup_finRange 512)
    (fun i _ => lower_snoc hlow i)
    (fun hlow' hocc => hinner (by rw [List.length_append, List.length_singleton, hlen]) hlow' hocc)
    (c := fun e => e.isPresent && !e.isHuge)
    (fun i _ => by rw [h.plain ht (by omega) (lower_snoc hlow i)]; exact Bool.and_true _)
    (fun i _ q hq => hD q ⟨i, hq⟩) hm
  refine ⟨m', ?_, hm'.skip ?_ ?_⟩
  · unfold destroyBelow
    rw [if_neg (by rw [hacc]; decide)]
    exact hrun
  · rintro q (hd | ⟨i, _, hq⟩)
    · exact Or.inl hd
    · exact Or.inr ⟨i, hq⟩
  · rintro q a (hd | ⟨i, hq⟩) _
    · exact Or.inl hd
    · exact Or.inr ⟨i, List.mem_finRange i, hq⟩

theorem reclaims_destroyPdpt (hlen : p.length = 1) (hlow : Lower p) (ht : s.Occupied root p t) :
    Reclaims args p₀ rest s root destroyPdpt p t := by
  have hpd := fun {p t} (hlen : p.length = 2) hlow (ht : s.Occupied root p t) =>
    reclaims_destroyBelow h hrest (by decide)
      (fun hlen hlow ht => reclaims_destroyPt h hrest ht hlen hlow) hlen hlow ht
  exact reclaims_destroyBelow h hrest (by decide) hpd hlen hlow ht

end Loops

/-- `destroy_user_address_space` completes, and only what is not the space's own stays taken. -/
theorem Tenancy.destroyed {args : BootArgs} {p₀ : PhysicalMemoryManager} {base extra : Finset Nat}
    {root : Nat} (h : Tenancy args p₀ base extra root s) :
    ∃ m, destroyUserAddressSpace s.machine root = some m ∧
      Borrowed args p₀ m.pmm ((s.held \ base) ∪ extra) := by
  have hroot := occupied_root (s := s) (Or.inr h.live)
  have hrest : ∀ a ∈ (s.held \ base) ∪ extra, ¬ s.Private root a := by
    intro a ha
    rcases Finset.mem_union.mp ha with ha | ha
    · rintro ⟨p, _, hocc⟩
      exact h.inv.heldFree (Finset.mem_sdiff.mp ha).1 root p hocc
    · exact (h.apart a ha).1
  have hstart : Reclaimed args p₀ ((s.held \ base) ∪ extra) s root (fun _ => False) s.machine := by
    refine ⟨Torn.refl s root, fun _ _ _ _ => rfl, ?_⟩
    obtain ⟨frames, hb, hmem⟩ := h.account
    refine ⟨frames, hb, fun a => ?_⟩
    rw [hmem a, Finset.mem_union, Finset.mem_sdiff]
    simp only [not_false_eq_true, true_and, Private]
  have hlow : ∀ i ∈ (List.finRange 512).take 256, Lower ([] ++ [i]) := by
    intro i hi
    obtain ⟨j, hj, rfl⟩ := List.mem_take_iff_getElem.mp hi
    refine ⟨_, [], rfl, ?_⟩
    simp only [Upper, List.getElem_finRange, Fin.val_cast]
    omega
  obtain ⟨m, hrun, hm⟩ := reclaimed_loop h hrest hroot (Nat.zero_le 2)
    ((List.nodup_finRange 512).sublist (List.take_sublist 256 _)) hlow
    (fun hlow hocc => reclaims_destroyPdpt h hrest rfl hlow hocc) (c := isPresent) (fun _ _ => rfl)
    (fun _ _ _ _ hd => hd) hstart
  have hnil : ¬ (False ∨ ∃ i ∈ (List.finRange 512).take 256, [] ++ [i] <+: []) := by
    rintro (hd | ⟨i, _, hq⟩)
    · exact hd
    · simp at hq
  have hend := hm.free h.inv hrest (Or.inl rfl) hnil hroot
  refine ⟨m.freePage root, ?_, ?_⟩
  · have hne : ¬ (PhysicalAddress.isNull root || root == s.machine.vmm.rootPml4Paddr) = true := by
      rw [h.inv.vmm, Bool.or_eq_true, beq_iff_eq]
      rintro (hz | rfl)
      · exact (h.inv.owned hroot).nonnull (by simpa [PhysicalAddress.isNull] using hz)
      · exact h.inv.kernel h.live
    unfold destroyUserAddressSpace
    rw [if_neg hne, if_neg (by rw [h.access hroot (Nat.zero_le 3) (Or.inl rfl)]; decide), hrun]
    rfl
  · obtain ⟨frames, hb, hmem⟩ := hend.account
    have heq : frames = (s.held \ base) ∪ extra := by
      ext a
      rw [hmem a]
      constructor
      · rintro (⟨q, hq, hnot, _⟩ | ha)
        · exfalso
          rcases hq with rfl | ⟨i, q, rfl, hi⟩
          · exact hnot (Or.inr rfl)
          refine hnot (Or.inl (Or.inr ⟨i, ?_, q, rfl⟩))
          have hi : i.val < 256 := by
            simp only [Upper] at hi
            omega
          exact List.mem_take_iff_getElem.mpr ⟨i.val, by simpa using hi, by simp⟩
        · exact ha
      · exact Or.inr
    exact heq ▸ hb

/-- What the user of the space `root` does: frames are taken, mapped in the user half, written and
given back; the frames in `base` are others'. -/
def ForSpace (base : Finset Nat) (root : Nat) (s : System) : VmOp → Prop
  | .takeFrame => True
  | .map r vaddr paddr _ => r = root ∧ ¬ Upper (pml4Index vaddr) ∧ paddr ∈ s.held ∧ paddr ∉ base
  | .freeFrame paddr => paddr ∉ base
  | .store _ _ _ => True
  | _ => False

inductive Uses (base : Finset Nat) (root : Nat) : System → System → Prop where
  | refl (s : System) : Uses base root s s
  | step {s t t' : System} {op : VmOp} (h : Uses base root s t) (hstep : Step t op t')
      (hop : ForSpace base root t op) : Uses base root s t'

section Use
variable {args : BootArgs} {p₀ : PhysicalMemoryManager} {base : Finset Nat} {root : Nat}

theorem Tenancy.step {t : System} {op : VmOp} (h : Tenancy args p₀ base ∅ root s)
    (hop : ForSpace base root s op) (hstep : Step s op t) : Tenancy args p₀ base ∅ root t := by
  cases hstep with
  | frameTaken halloc hpa => exact h.take halloc hpa
  | takeFailed halloc => exact h.exhausted halloc
  | mappedUser huser hheld hmap =>
    obtain ⟨rfl, hlow, _, hbase⟩ := hop
    rcases h.map hlow hheld hbase hmap with ⟨hne, _⟩ | ⟨_, hok⟩
    · exact absurd rfl hne
    · exact hok
  | mappedOther _ hother _ => exact absurd ⟨hop.1 ▸ h.live, hop.2.1⟩ hother
  | mapFailed _ hne hmap =>
    obtain ⟨rfl, hlow, hheld, hbase⟩ := hop
    rcases h.map hlow hheld hbase hmap with ⟨_, hfail⟩ | ⟨hok, _⟩
    · exact hfail
    · exact absurd hok hne
  | frameFreed hheld => exact h.free hheld hop
  | stored hpage => exact h.store _ _ hpage
  | _ => exact hop.elim

theorem Tenancy.uses {t : System} (h : Tenancy args p₀ base ∅ root s) (hrun : Uses base root s t) :
    Tenancy args p₀ base ∅ root t := by
  induction hrun with
  | refl => exact h
  | step _ hstep hop ih => exact ih.step hop hstep

end Use

/-- A space is created, used and destroyed: if no frame is left in the user's hands, the free frames
are again those before the creation. -/
theorem destroy_restores_frames {args : BootArgs} {s t : System} (hlive : s.Live args) {root : Nat}
    {m : Machine} (hcreate : createUserAddressSpace s.machine = some (root, m)) (hroot : root ≠ 0)
    (hrun : Uses s.held root (s.withSpace root m) t) (hheld : t.held = s.held) :
    ∃ m', destroyUserAddressSpace t.machine root = some m' ∧
      (∀ a, m'.taken a = s.machine.taken a) ∧ m'.pmm.freeFrames = s.machine.pmm.freeFrames := by
  have hs := inv_reachable hlive.reachable
  have hten := (Tenancy.created hs hlive.pmm.consistent hcreate hroot).uses hrun
  obtain ⟨m', hdestroy, hb⟩ := hten.destroyed
  rw [hheld, Finset.sdiff_self, Finset.union_empty] at hb
  refine ⟨m', hdestroy, ?_, ?_⟩
  · intro a
    exact hb.bits_eq.mpr rfl (a / 4096)
  · exact hb.freeFrames

/-! The sample space: one page is mapped, a second mapping of it fails and its frame is freed. -/

theorem sampleSpace_destroyed :
    ∃ t, Uses ∅ 0x108000 ((boot sampleKernel).withSpace 0x108000 sampleSpace) t ∧
      ∃ m', destroyUserAddressSpace t.machine 0x108000 = some m' ∧
        (∀ a, m'.taken a = sampleKernel.taken a) ∧
          m'.pmm.freeFrames = sampleKernel.pmm.freeFrames := by
  obtain ⟨m₁, m₂, m₃, m₄, h₁, h₂, h₃, h₄⟩ : ∃ m₁ m₂ m₃ m₄ : Machine,
      sampleSpace.allocPage = some (0x109000, m₁) ∧
      mapPageInTable m₁ 0x108000 0x400000 0x109000 (present ||| user) =
        some (.success, m₂) ∧
      m₂.allocPage = some (0x10D000, m₃) ∧
      mapPageInTable m₃ 0x108000 0x400000 0x10D000 (present ||| user) =
        some (.alreadyMapped, m₄) := by
    exact ⟨_, _, _, _, completed sampleSpace (by decide +kernel),
      completed sampleSpace (by decide +kernel),
      completed sampleSpace (by decide +kernel), completed sampleSpace (by decide +kernel)⟩
  have hlow : ¬ Upper (pml4Index 0x400000) := by decide
  have hspace : 0x108000 ∈ ((boot sampleKernel).withSpace 0x108000 sampleSpace).spaces :=
    Finset.mem_insert_self _ _
  have hrun : Uses ∅ 0x108000 ((boot sampleKernel).withSpace 0x108000 sampleSpace)
      ((boot sampleKernel).withSpace 0x108000 sampleSpace) := .refl _
  have hrun₁ := hrun.step (.frameTaken h₁ (by decide)) trivial
  have hrun₂ := hrun₁.step (.mappedUser ⟨hspace, hlow⟩ (Finset.mem_insert_self _ _) h₂)
    ⟨rfl, hlow, Finset.mem_insert_self _ _, Finset.notMem_empty _⟩
  have hrun₃ := hrun₂.step (.frameTaken h₃ (by decide)) trivial
  have hrun₄ := hrun₃.step (.mapFailed (Or.inr hspace) (by decide) h₄)
    ⟨rfl, hlow, Finset.mem_insert_self _ _, Finset.notMem_empty _⟩
  have hrun₅ := hrun₄.step (.frameFreed (Finset.mem_insert_self _ _)) (Finset.notMem_empty 0x10D000)
  have hheld : (insert 0x10D000 (({0x109000} : Finset Nat).erase 0x109000)).erase 0x10D000 = ∅ := by
    decide
  exact ⟨_, hrun₅, destroy_restores_frames sampleKernel_live sampleSpace_created
    (by decide) hrun₅ hheld⟩

end System

end LlamaOS.Memory
