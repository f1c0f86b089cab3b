import LlamaOS.Fs.Resolution

/-!
# The walk of `resolve_path`

The components of a path are looked up one after the other. The walk gets to the parent of the
last one if the directories exist and the pool has a vnode for each of them.
-/

namespace LlamaOS.Fs

section Walk

variable {fuel : Nat} {leaf : CString}

theorem walkSegments_cons {segment : CString} {rest : List CString} (hrest : rest ≠ []) (curr : Nat)
    (v : Fat32Volume) :
    walkSegments fuel (segment :: rest) curr v =
      match v.lookup fuel (v.vnodePool curr) segment with
      | none => none
      | some (res, child, vol) =>
        match child with
        | none => some ({ code := -3 }, vol)
        | some child =>
          if res ≠ 0 then some ({ code := -3 }, vol) else walkSegments fuel rest child vol := by
  obtain ⟨first, rest, rfl⟩ := List.exists_cons_of_ne_nil hrest
  rfl

theorem walkSegments_reaches {before : List CString} {v : Fat32Volume} {curr : Nat}
    {parent : Fat32VNode} (hready : Ready v.fs) (hcounted : v.Counted)
    (hused : v.vnodeInUse curr = true)
    (hlocate : v.fs.locate fuel (v.vnodePool curr) before = some (some parent))
    (hroom : v.vnodeCount + before.length ≤ maxCachedVnodes) :
    ∃ v₁ slot, Grown v v₁ before.length ∧ v₁.vnodePool slot = parent ∧ v₁.vnodeInUse slot = true ∧
      walkSegments fuel (before ++ [leaf]) curr v = walkSegments fuel [leaf] slot v₁ := by
  induction before generalizing v curr parent with
  | nil =>
    cases hlocate
    exact ⟨v, curr, Grown.reads hcounted hready.became, rfl, hused, rfl⟩
  | cons segment before ih =>
    rw [List.length_cons] at hroom
    rw [Fat32Filesystem.locate] at hlocate
    cases hfind : v.fs.find fuel (v.vnodePool curr) segment with
    | none =>
      rw [hfind] at hlocate
      cases hlocate
    | some found =>
      cases found with
      | none =>
        rw [hfind] at hlocate
        cases hlocate
      | some child =>
        rw [hfind] at hlocate
        obtain ⟨slot, v₁, hlookup, hgrown, hpool, hslot⟩ :=
          lookup_taken hready hcounted hfind (by omega)
        have hlocate₁ : v₁.fs.locate fuel (v₁.vnodePool slot) before = some (some parent) := by
          rw [locate_became hgrown.fs, hpool]
          exact hlocate
        obtain ⟨v₂, slot₂, hgrown₂, hpool₂, hslot₂, hwalk⟩ := ih hgrown.fs.ready hgrown.counted
          hslot hlocate₁ (by rw [hgrown.count]; omega)
        refine ⟨v₂, slot₂, ?_, hpool₂, hslot₂, ?_⟩
        · rw [List.length_cons, Nat.add_comm]
          exact hgrown.trans hgrown₂
        · rw [List.cons_append, walkSegments_cons (List.concat_ne_nil _ _), hlookup]
          exact hwalk

theorem walkSegments_loses {before : List CString} {v : Fat32Volume} {curr : Nat}
    (hready : Ready v.fs) (hcounted : v.Counted) (hused : v.vnodeInUse curr = true)
    (hlost : ∀ parent, v.fs.locate fuel (v.vnodePool curr) before = some (some parent) →
      maxCachedVnodes < v.vnodeCount + before.length) :
    walkSegments fuel (before ++ [leaf]) curr v = none ∨
      ∃ v₁ k, Grown v v₁ k ∧ k ≤ before.length ∧
        walkSegments fuel (before ++ [leaf]) curr v = some ({ code := -3 }, v₁) := by
  induction before generalizing v curr with
  | nil =>
    have hmany := hlost _ rfl
    rw [← hcounted] at hmany
    have hle :=
      Finset.card_filter_le (Finset.range maxCachedVnodes) (fun i => v.vnodeInUse i = true)
    exact absurd hmany (Nat.not_lt_of_le hle)
  | cons segment before ih =>
    rw [List.cons_append, walkSegments_cons (List.concat_ne_nil _ _), List.length_cons]
    cases hfind : v.fs.find fuel (v.vnodePool curr) segment with
    | none =>
      obtain ⟨fs', code, _, _, hlookup⟩ := lookup_find hready fuel (v.vnodePool curr) segment
      rw [hlookup, hfind]
      exact Or.inl rfl
    | some found =>
      cases found with
      | none =>
        obtain ⟨v₁, code, hlookup, _, hgrown⟩ := lookup_missing hready hcounted hfind
        rw [hlookup]
        exact Or.inr ⟨v₁, 0, hgrown, Nat.zero_le _, rfl⟩
      | some child =>
        by_cases hroom : v.vnodeCount < maxCachedVnodes
        · obtain ⟨slot, v₁, hlookup, hgrown, hpool, hslot⟩ :=
            lookup_taken hready hcounted hfind hroom
          rw [hlookup]
          have hlost₁ : ∀ parent, v₁.fs.locate fuel (v₁.vnodePool slot) before =
              some (some parent) → maxCachedVnodes < v₁.vnodeCount + before.length := by
            intro parent hlocate
            rw [locate_became hgrown.fs, hpool] at hlocate
            have hmany := hlost parent (by rw [Fat32Filesystem.locate, hfind]; exact hlocate)
            rw [List.length_cons] at hmany
            rw [hgrown.count]
            omega
          rcases ih hgrown.fs.ready hgrown.counted hslot hlost₁ with
            hnone | ⟨v₂, k, hgrown₂, hk, hwalk⟩
          · exact Or.inl hnone
          · exact Or.inr ⟨v₂, 1 + k, hgrown.trans hgrown₂, by omega, hwalk⟩
        · obtain ⟨v₁, hlookup, hgrown⟩ :=
            lookup_exhausted hready hcounted hfind (Nat.le_of_not_lt hroom)
          rw [hlookup]
          exact Or.inr ⟨v₁, 0, hgrown, Nat.zero_le _, rfl⟩

variable {v : Fat32Volume} {curr : Nat}

theorem walkSegments_found (hready : Ready v.fs) (hcounted : v.Counted) {child : Fat32VNode}
    (hfind : v.fs.find fuel (v.vnodePool curr) leaf = some (some child))
    (hroom : v.vnodeCount < maxCachedVnodes) :
    ∃ slot v₁, Grown v v₁ 1 ∧ v₁.vnodePool slot = child ∧ v₁.vnodeInUse slot = true ∧
      walkSegments fuel [leaf] curr v = some (⟨0, some slot, some curr, leaf⟩, v₁) := by
  obtain ⟨slot, v₁, hlookup, hgrown, hpool, hslot⟩ := lookup_taken hready hcounted hfind hroom
  refine ⟨slot, v₁, hgrown, hpool, hslot, ?_⟩
  rw [walkSegments, hlookup]
  rfl

theorem walkSegments_missing (hready : Ready v.fs) (hcounted : v.Counted)
    {found : Option Fat32VNode} (hfind : v.fs.find fuel (v.vnodePool curr) leaf = some found)
    (hmissing : found = none ∨ maxCachedVnodes ≤ v.vnodeCount) :
    ∃ v₁, Grown v v₁ 0 ∧ walkSegments fuel [leaf] curr v =
      some (⟨1, none, some curr, leaf⟩, v₁) := by
  cases found with
  | none =>
    obtain ⟨v₁, code, hlookup, hcode, hgrown⟩ := lookup_missing hready hcounted hfind
    refine ⟨v₁, hgrown, ?_⟩
    rw [walkSegments, hlookup]
    simp only [hcode, false_and, if_false]
  | some child =>
    rcases hmissing with hnone | hfull
    · cases hnone
    obtain ⟨v₁, hlookup, hgrown⟩ := lookup_exhausted hready hcounted hfind hfull
    refine ⟨v₁, hgrown, ?_⟩
    rw [walkSegments, hlookup]
    rfl

end Walk

namespace Vfs

/-- The states of `resolve_path`: a root that is in use, on a device that does not fail. -/
structure Steady (s : Vfs) (root : Nat) : Prop where
  ready : Ready s.vol.fs
  counted : s.vol.Counted
  mount : s.root = some root
  used : s.vol.vnodeInUse root = true

end Vfs

section Resolve

variable {s : Vfs} {root fuel : Nat} {path : CString}

theorem resolvePath_segments (hroot : s.root = some root) {norm : CString}
    (hnorm : normalizePath path pathMax = some norm) :
    s.resolvePath fuel path =
      if resolved path = [] then some (⟨0, some root, none, [slash]⟩, s)
      else (walkSegments fuel (resolved path) root s.vol).map fun r =>
        (r.1, { s with vol := r.2 }) := by
  obtain ⟨_, _, _, rfl⟩ := (normalizePath_eq_some_iff (by decide)).mp hnorm
  have hproper : ∀ segment ∈ resolved path, Proper segment := fun _ h => (mem_resolved h).2
  unfold Vfs.resolvePath
  simp only [hnorm, hroot]
  by_cases hnil : resolved path = []
  · rw [if_pos hnil, hnil]
    rfl
  rw [if_neg hnil, if_neg]
  · have hsplit := splitOn_render hproper
    rw [if_neg hnil, render, if_neg hnil] at hsplit
    obtain ⟨first, rest, hcons⟩ := List.exists_cons_of_ne_nil hnil
    have hdrop : ((render (resolved path)).drop 1).splitOn slash = resolved path := by
      rw [render, if_neg hnil, hcons, List.flatMap_cons, List.cons_append, List.drop_succ_cons,
        List.drop_zero]
      rw [hcons, List.flatMap_cons, List.cons_append,
        ← List.nil_append (slash :: (first ++ List.flatMap (fun x => slash :: x) rest)),
        List.splitOn_append_cons_self] at hsplit
      exact (List.cons.inj hsplit).2
    rw [hdrop]
    cases walkSegments fuel (resolved path) root s.vol with
    | none => rfl
    | some r => rfl
  · intro heq
    have hagain := congrArg resolved heq
    rw [resolved_render hproper] at hagain
    exact hnil hagain

variable {norm leaf : CString} {before : List CString} {parent : Fat32VNode}

theorem resolvePath_concat (hroot : s.root = some root)
    (hnorm : normalizePath path pathMax = some norm) (hpath : resolved path = before ++ [leaf]) :
    s.resolvePath fuel path =
      (walkSegments fuel (before ++ [leaf]) root s.vol).map fun r =>
        (r.1, { s with vol := r.2 }) := by
  rw [resolvePath_segments hroot hnorm, if_neg, hpath]
  rw [hpath]
  exact List.concat_ne_nil _ _

section

variable (hs : s.Steady root) (hnorm : normalizePath path pathMax = some norm)
  (hpath : resolved path = before ++ [leaf])
include hs hnorm hpath

theorem resolvePath_found
    (hparent : s.vol.fs.locate fuel (s.vol.vnodePool root) before = some (some parent))
    {child : Fat32VNode} (hleaf : s.vol.fs.find fuel parent leaf = some (some child))
    (hroom : s.vol.vnodeCount + (before.length + 1) ≤ maxCachedVnodes) :
    ∃ v' slot pslot, Grown s.vol v' (before.length + 1) ∧ v'.vnodePool slot = child ∧
      v'.vnodePool pslot = parent ∧
      s.resolvePath fuel path = some (⟨0, some slot, some pslot, leaf⟩, { s with vol := v' }) := by
  obtain ⟨v₁, pslot, hgrown, hpool, hused, hwalk⟩ := @walkSegments_reaches _ leaf _ _ _ _ hs.ready
    hs.counted hs.used hparent (by omega)
  have hleaf₁ : v₁.fs.find fuel (v₁.vnodePool pslot) leaf = some (some child) := by
    rw [find_became hgrown.fs, hpool]
    exact hleaf
  obtain ⟨slot, v₂, hgrown₂, hslot, _, hfound⟩ :=
    walkSegments_found hgrown.fs.ready hgrown.counted hleaf₁ (by rw [hgrown.count]; omega)
  refine ⟨v₂, slot, pslot, hgrown.trans hgrown₂, hslot, (hgrown₂.pool pslot hused).trans hpool, ?_⟩
  rw [resolvePath_concat hs.mount hnorm hpath, hwalk, hfound]
  rfl

theorem resolvePath_missing
    (hparent : s.vol.fs.locate fuel (s.vol.vnodePool root) before = some (some parent))
    {found : Option Fat32VNode} (hleaf : s.vol.fs.find fuel parent leaf = some found)
    (hroom : s.vol.vnodeCount + before.length ≤ maxCachedVnodes)
    (hmissing : found = none ∨ s.vol.vnodeCount + before.length = maxCachedVnodes) :
    ∃ v' pslot, Grown s.vol v' before.length ∧ v'.vnodePool pslot = parent ∧
      s.resolvePath fuel path = some (⟨1, none, some pslot, leaf⟩, { s with vol := v' }) := by
  obtain ⟨v₁, pslot, hgrown, hpool, hused, hwalk⟩ := @walkSegments_reaches _ leaf _ _ _ _ hs.ready
    hs.counted hs.used hparent hroom
  have hleaf₁ : v₁.fs.find fuel (v₁.vnodePool pslot) leaf = some found := by
    rw [find_became hgrown.fs, hpool]
    exact hleaf
  obtain ⟨v₂, hgrown₂, hlast⟩ := walkSegments_missing hgrown.fs.ready hgrown.counted hleaf₁
    (hmissing.imp_right fun hfull => by rw [hgrown.count]; omega)
  refine ⟨v₂, pslot, hgrown.trans hgrown₂, (hgrown₂.pool pslot hused).trans hpool, ?_⟩
  rw [resolvePath_concat hs.mount hnorm hpath, hwalk, hlast]
  rfl

theorem resolvePath_lost
    (hlost : ∀ parent, s.vol.fs.locate fuel (s.vol.vnodePool root) before = some (some parent) →
      maxCachedVnodes < s.vol.vnodeCount + before.length) :
    s.resolvePath fuel path = none ∨
      ∃ v' k, Grown s.vol v' k ∧ s.resolvePath fuel path =
        some ({ code := -3 }, { s with vol := v' }) := by
  rw [resolvePath_concat hs.mount hnorm hpath]
  rcases @walkSegments_loses _ leaf _ _ _ hs.ready hs.counted hs.used hlost with
    hnone | ⟨v₁, k, hgrown, _, hwalk⟩
  · rw [hnone]
    exact Or.inl rfl
  · rw [hwalk]
    exact Or.inr ⟨v₁, k, hgrown, rfl⟩

end

end Resolve

end LlamaOS.Fs
