import LlamaOS.Fs.DirectoryScans
import LlamaOS.Fs.NormalPaths
import LlamaOS.Fs.Vfs
import Mathlib.Data.Finset.Card

/-!
# Path resolution on a device that does not fail

What `lookup` and `resolve_path` find is a function of the contents of the volume alone. Each
component they find takes one vnode of the pool, and no call gives it back.
-/

namespace LlamaOS.Fs
open ByteBuffer Fs.Geometry Fat32Filesystem Fat32Volume

section Search

variable {α σ : Type} (visit : Buffer → σ → Nat → Buffer → α ⊕ σ)

/-- The loop of `scanClusters` over the contents of the volume. -/
def searchChain (fs : Fat32Filesystem) : Nat → Nat → Buffer → σ → Option (Option (Nat × α))
  | 0, _, _, _ => none
  | fuel + 1, curr, lfnBuf, s =>
    if fs.Reads curr then
      match scanEntries visit (fs.clusters curr) fs.geo.entries 0 lfnBuf s with
      | .endOfDirectory => some none
      | .found a => some (some (curr, a))
      | .exhausted lfnBuf s => searchChain fs fuel (fs.geo.fatEntry fs.dev.bytes curr) lfnBuf s
    else some none

theorem scanClusters_search {fs : Fat32Filesystem} (fuel : Nat) {fs₁ : Fat32Filesystem} (curr : Nat)
    (lfnBuf : Buffer) (s : σ) (hfs₁ : Became fs fs.dev.bytes fs₁) :
    ∃ fs', Became fs fs.dev.bytes fs' ∧ scanClusters visit fuel curr lfnBuf s fs₁ =
      (searchChain visit fs fuel curr lfnBuf s).map fun r => (r, fs') := by
  induction fuel generalizing fs₁ curr lfnBuf s with
  | zero => exact ⟨fs₁, hfs₁, rfl⟩
  | succ fuel ih =>
    rw [scanClusters, searchChain]
    by_cases hreads : fs.Reads curr
    · rw [if_pos hreads.1, if_pos hreads]
      obtain ⟨fs₂, hread, hfs₂⟩ := hfs₁.readCluster_ok hreads.1.1 hreads.2
      simp only [hread, hfs₂.geo]
      rw [show fs.geo.bytesPerCluster / dirEntrySize = fs.geo.entries from rfl]
      cases scanEntries visit (fs.clusters curr) fs.geo.entries 0 lfnBuf s with
      | endOfDirectory => exact ⟨fs₂, hfs₂, rfl⟩
      | found a => exact ⟨fs₂, hfs₂, rfl⟩
      | exhausted lfnBuf s =>
        obtain ⟨fs₃, hentry, hfs₃⟩ := hfs₂.readFatEntry_ok (hreads.hasLink hfs₂.valid.toAccepted)
        simp only [hentry]
        exact ih (fs.geo.fatEntry fs.dev.bytes curr) lfnBuf s hfs₃
    rw [if_neg hreads]
    split
    · rename_i hcurr
      obtain ⟨fs₂, hread, hfs₂⟩ :=
        hfs₁.readCluster_refused hcurr fun hcluster => hreads ⟨hcurr, hcluster⟩
      rw [hread]
      exact ⟨fs₂, hfs₂, rfl⟩
    · exact ⟨fs₁, hfs₁, rfl⟩

end Search

variable {fs : Fat32Filesystem}

namespace Fat32Filesystem

/-- The vnode for the entry that `lookup` selects; `none` if the search does not end. -/
def find (fuel : Nat) (fs : Fat32Filesystem) (dir : Fat32VNode) (name : CString) :
    Option (Option Fat32VNode) :=
  if dir.type ≠ .directory then some none
  else (searchChain (lookupVisit name) fs fuel dir.firstCluster (fun _ => 0) ()).map
    fun r => r.map fun (c, e) => e.vnode c

/-- The vnode under a path from the directory `dir`. -/
def locate (fuel : Nat) (fs : Fat32Filesystem) :
    Fat32VNode → List CString → Option (Option Fat32VNode)
  | dir, [] => some (some dir)
  | dir, name :: rest =>
    match fs.find fuel dir name with
    | none => none
    | some none => some none
    | some (some child) => fs.locate fuel child rest

theorem locate_append {fuel : Nat} {before after : List CString} {dir : Fat32VNode} :
    fs.locate fuel dir (before ++ after) =
      match fs.locate fuel dir before with
      | none => none
      | some none => some none
      | some (some child) => fs.locate fuel child after := by
  induction before generalizing dir with
  | nil => rfl
  | cons name before ih =>
    rw [List.cons_append, locate, locate]
    cases fs.find fuel dir name with
    | none => rfl
    | some found =>
      cases found with
      | none => rfl
      | some child => exact ih

end Fat32Filesystem

variable {fs' : Fat32Filesystem}

theorem searchChain_became {α σ : Type} (visit : Buffer → σ → Nat → Buffer → α ⊕ σ)
    (h : Became fs fs.dev.bytes fs') (fuel curr : Nat) (lfnBuf : Buffer) (s : σ) :
    searchChain visit fs' fuel curr lfnBuf s = searchChain visit fs fuel curr lfnBuf s := by
  induction fuel generalizing curr lfnBuf s with
  | zero => rfl
  | succ fuel ih =>
    simp only [searchChain, h.reads_eq, clusters, h.geo, h.bytes, ih]

theorem find_became (h : Became fs fs.dev.bytes fs') (fuel : Nat) :
    fs'.find fuel = fs.find fuel := by
  funext dir name
  unfold find
  rw [searchChain_became _ h]

theorem locate_became (h : Became fs fs.dev.bytes fs') (fuel : Nat) (segments : List CString)
    (dir : Fat32VNode) : fs'.locate fuel dir segments = fs.locate fuel dir segments := by
  induction segments generalizing dir with
  | nil => rfl
  | cons name rest ih =>
    rw [locate, locate, find_became h]
    simp only [ih]

variable {v : Fat32Volume}

namespace Fat32Volume

/-- The counter of the pool is the number of vnodes in use. -/
def Counted (v : Fat32Volume) : Prop :=
  ((Finset.range maxCachedVnodes).filter fun i => v.vnodeInUse i = true).card = v.vnodeCount

theorem hasVnode_iff (h : v.Counted) : v.HasVnode ↔ v.vnodeCount < maxCachedVnodes := by
  rw [← h]
  constructor
  · rintro ⟨i, hi, hfree⟩
    have hsub : (Finset.range maxCachedVnodes).filter (fun i => v.vnodeInUse i = true) ⊂
        Finset.range maxCachedVnodes := by
      rw [Finset.filter_ssubset]
      refine ⟨i, Finset.mem_range.mpr hi, ?_⟩
      rw [hfree]
      exact Bool.false_ne_true
    have hlt := Finset.card_lt_card hsub
    rwa [Finset.card_range] at hlt
  · intro hlt
    by_contra hnone
    have hall : (Finset.range maxCachedVnodes).filter (fun i => v.vnodeInUse i = true) =
        Finset.range maxCachedVnodes := by
      rw [Finset.filter_eq_self]
      intro i hi
      by_contra hfree
      exact hnone ⟨i, Finset.mem_range.mp hi, Bool.eq_false_iff.mpr hfree⟩
    rw [hall, Finset.card_range] at hlt
    exact Nat.lt_irrefl _ hlt

end Fat32Volume

/-- The contents are the same, and `k` vnodes of the pool have been taken. -/
structure Grown (v v' : Fat32Volume) (k : Nat) : Prop where
  fs : Became v.fs v.fs.dev.bytes v'.fs
  count : v'.vnodeCount = v.vnodeCount + k
  counted : v'.Counted
  inUse : ∀ i, v.vnodeInUse i = true → v'.vnodeInUse i = true
  pool : ∀ i, v.vnodeInUse i = true → v'.vnodePool i = v.vnodePool i

namespace Grown

variable {v v' v'' : Fat32Volume} {k m : Nat}

theorem reads (hcounted : v.Counted) (h : Became v.fs v.fs.dev.bytes fs) :
    Grown v { v with fs } 0 := ⟨h, rfl, hcounted, fun _ hi => hi, fun _ _ => rfl⟩

theorem trans (h : Grown v v' k) (h' : Grown v' v'' m) : Grown v v'' (k + m) where
  fs := h.fs.trans (h.fs.bytes ▸ h'.fs)
  count := by rw [h'.count, h.count, Nat.add_assoc]
  counted := h'.counted
  inUse i hi := h'.inUse i (h.inUse i hi)
  pool i hi := (h'.pool i (h.inUse i hi)).trans (h.pool i hi)

end Grown

theorem allocVnode_grown (hready : Ready v.fs) (hcounted : v.Counted) (node : Fat32VNode) :
    (v.vnodeCount < maxCachedVnodes ∧ ∃ slot v', v.allocVnode node = (some slot, v') ∧
      Grown v v' 1 ∧
      v'.vnodePool slot = node ∧ v'.vnodeInUse slot = true ∧ v'.fs = v.fs ∧
        slot < maxCachedVnodes) ∨
    (maxCachedVnodes ≤ v.vnodeCount ∧ v.allocVnode node = (none, v)) := by
  have hiff := hasVnode_iff hcounted
  unfold allocVnode
  cases hfind : (List.range maxCachedVnodes).find? fun i => !v.vnodeInUse i with
  | none =>
    refine Or.inr ⟨?_, rfl⟩
    by_contra hlt
    obtain ⟨i, hi, hfree⟩ := hiff.mpr (Nat.lt_of_not_le hlt)
    have hused := List.find?_eq_none.mp hfind i (List.mem_range.mpr hi)
    rw [hfree] at hused
    exact hused rfl
  | some slot =>
    have hslot := List.mem_range.mp (List.mem_of_find?_eq_some hfind)
    have hfree : v.vnodeInUse slot = false := by
      have hfound := List.find?_some hfind
      simpa using hfound
    refine Or.inl ⟨hiff.mp ⟨slot, hslot, hfree⟩, slot, _, rfl, ⟨hready.became, rfl, ?_, ?_, ?_⟩,
      if_pos rfl, if_pos rfl, rfl, hslot⟩
    · have hinsert : ((Finset.range maxCachedVnodes).filter
          fun i => (if i = slot then true else v.vnodeInUse i) = true) =
          insert slot ((Finset.range maxCachedVnodes).filter fun i => v.vnodeInUse i = true) := by
        ext i
        simp only [Finset.mem_filter, Finset.mem_insert, Finset.mem_range]
        by_cases heq : i = slot
        · simp only [heq, hslot, if_true, true_or, and_self]
        · simp only [heq, if_false, false_or]
      unfold Fat32Volume.Counted
      simp only
      rw [hinsert, Finset.card_insert_of_notMem, hcounted]
      intro hmem
      have hused := (Finset.mem_filter.mp hmem).2
      rw [hfree] at hused
      cases hused
    · intro i hi
      simp only
      split
      · rfl
      · exact hi
    · intro i hi
      simp only
      rw [if_neg]
      rintro rfl
      rw [hfree] at hi
      cases hi

section Lookup

variable {v : Fat32Volume} {dir : Fat32VNode} {fuel : Nat} {name : CString}

theorem lookup_find (hready : Ready v.fs) (fuel : Nat) (dir : Fat32VNode) (name : CString) :
    ∃ fs' code, Became v.fs v.fs.dev.bytes fs' ∧ code ≠ 0 ∧ v.lookup fuel dir name =
      match v.fs.find fuel dir name with
      | none => none
      | some none => some (code, none, { v with fs := fs' })
      | some (some child) =>
        match { v with fs := fs' }.allocVnode child with
        | (none, v) => some (-3, none, v)
        | (some child, v) => some (0, some child, v) := by
  unfold lookup find
  by_cases hdir : dir.type ≠ .directory
  · rw [if_pos hdir, if_pos hdir]
    exact ⟨v.fs, -1, hready.became, by decide, rfl⟩
  rw [if_neg hdir, if_neg hdir]
  obtain ⟨buf, fs₁, halloc, hfs₁⟩ := hready.became.kmalloc_ok
  obtain ⟨fs', hfs', hscan⟩ :=
    scanClusters_search (lookupVisit name) fuel dir.firstCluster (fun _ => 0) () hfs₁
  refine ⟨fs', -2, hfs', by decide, ?_⟩
  simp only [halloc, hscan]
  cases searchChain (lookupVisit name) v.fs fuel dir.firstCluster (fun _ => 0) () with
  | none => rfl
  | some found =>
    cases found with
    | none => rfl
    | some found => rfl

theorem lookup_missing (hready : Ready v.fs) (hcounted : v.Counted)
    (h : v.fs.find fuel dir name = some none) :
    ∃ v' code, v.lookup fuel dir name = some (code, none, v') ∧ code ≠ 0 ∧ Grown v v' 0 := by
  obtain ⟨fs', code, hfs', hcode, hlookup⟩ := lookup_find hready fuel dir name
  rw [h] at hlookup
  exact ⟨_, code, hlookup, hcode, Grown.reads hcounted hfs'⟩

variable {child : Fat32VNode}

theorem lookup_taken (hready : Ready v.fs) (hcounted : v.Counted)
    (h : v.fs.find fuel dir name = some (some child)) (hroom : v.vnodeCount < maxCachedVnodes) :
    ∃ slot v', v.lookup fuel dir name = some (0, some slot, v') ∧ Grown v v' 1 ∧
      v'.vnodePool slot = child ∧ v'.vnodeInUse slot = true := by
  obtain ⟨fs', code, hfs', _, hlookup⟩ := lookup_find hready fuel dir name
  simp only [h] at hlookup
  rcases allocVnode_grown (v := { v with fs := fs' }) hfs'.ready hcounted child with
    ⟨_, slot, v', halloc, hgrown, hpool, hused, _⟩ | ⟨hfull, _⟩
  · simp only [halloc] at hlookup
    exact ⟨slot, v', hlookup, (Grown.reads hcounted hfs').trans hgrown, hpool, hused⟩
  · exact absurd hroom (Nat.not_lt_of_le hfull)

theorem lookup_exhausted (hready : Ready v.fs) (hcounted : v.Counted)
    (h : v.fs.find fuel dir name = some (some child)) (hfull : maxCachedVnodes ≤ v.vnodeCount) :
    ∃ v', v.lookup fuel dir name = some (-3, none, v') ∧ Grown v v' 0 := by
  obtain ⟨fs', code, hfs', _, hlookup⟩ := lookup_find hready fuel dir name
  simp only [h] at hlookup
  rcases allocVnode_grown (v := { v with fs := fs' }) hfs'.ready hcounted child with
    ⟨hroom, _⟩ | ⟨_, halloc⟩
  · exact absurd hroom (Nat.not_lt_of_le hfull)
  · simp only [halloc] at hlookup
    exact ⟨_, hlookup, Grown.reads hcounted hfs'⟩

end Lookup

end LlamaOS.Fs
