import LlamaOS.Fs.PathWalks
import LlamaOS.Fs.Termination

/-!
# Calls of the virtual file system

Runs of calls from a mount on, and the vnodes they take from the pool.
-/

namespace LlamaOS.Fs
open Transcript

inductive VfsCall where
  | open (path : CString) (flags : Nat)
  | close (fd : Int)
  | read (fd : Int) (count : Nat)
  | write (fd : Int) (src : List (BitVec 8))
  | seek (fd : Int) (offset : BitVec 64) (origin : SeekOrigin)
  | stat (path : CString)
  | mkdir (path : CString)
  | readdir (fd : Int) (index : Nat)
  | unlink (path : CString)

/-- The state after the call; `none` if it has not returned. -/
def VfsCall.run (fuel : Nat) (s : Vfs) : VfsCall → Option Vfs
  | .open path flags => (s.open fuel path flags).map (·.2)
  | .close fd => some (s.close fd).2
  | .read fd count => some (s.read fd count).2.2
  | .write fd src => some (s.write fd src).2
  | .seek fd offset origin => some (s.seek fd offset origin).2
  | .stat path => (s.stat fuel path).map (·.2.2)
  | .mkdir path => (s.mkdir fuel path).map (·.2)
  | .readdir fd index => (s.readdir fuel fd index).map (·.2.2)
  | .unlink path => (s.unlink fuel path).map (·.2)

inductive VfsRun (s : Vfs) : List VfsCall → Vfs → Prop where
  | start : VfsRun s [] s
  | call {calls : List VfsCall} {s₁ s₂ : Vfs} {call : VfsCall} {fuel : Nat} (h : VfsRun s calls s₁)
      (hrun : call.run fuel s₁ = some s₂) : VfsRun s (calls ++ [call]) s₂

def runCalls (fuel : Nat) (s : Vfs) (calls : List VfsCall) : Option Vfs :=
  calls.foldlM (fun s (call : VfsCall) => call.run fuel s) s

theorem runCalls_run {fuel : Nat} {s : Vfs} {calls : List VfsCall} {s' : Vfs}
    (h : runCalls fuel s calls = some s') : VfsRun s calls s' := by
  induction calls using List.reverseRecOn generalizing s' with
  | nil =>
    cases h
    exact VfsRun.start
  | append_singleton calls call ih =>
    rw [runCalls, List.foldlM_append] at h
    obtain ⟨s₁, hcalls, hcall⟩ := Option.bind_eq_some_iff.mp h
    obtain ⟨s₂, hrun, hlast⟩ := Option.bind_eq_some_iff.mp hcall
    cases hlast
    exact VfsRun.call (ih hcalls) hrun

/-- The components that a call looks up or creates. -/
def VfsCall.components : VfsCall → Nat
  | .open path _ | .stat path | .mkdir path | .unlink path => (resolved path).length
  | _ => 0

theorem Performs.ready {P : Access → Prop} {n : Nat} {fs fs' : Fat32Filesystem}
    (h : Performs P n fs fs') (hfs : Ready fs) : Ready fs' := by
  refine h.invariant ?_ hfs
  intro s a _ hs
  have hrun := a.run_logged s
  exact hs.of_limits hrun.geo hrun.mounted hrun.limits hrun.grants

/-- A step that takes at most `k` vnodes. -/
structure Kept (s s' : Vfs) (k : Nat) : Prop where
  ready : Ready s'.vol.fs
  counted : s'.vol.Counted
  mount : s'.root = s.root
  inUse : ∀ i, s.vol.vnodeInUse i = true → s'.vol.vnodeInUse i = true
  lower : s.vol.vnodeCount ≤ s'.vol.vnodeCount
  upper : s'.vol.vnodeCount ≤ s.vol.vnodeCount + k

namespace Kept

variable {s s' s'' : Vfs} {k m : Nat}

theorem trans (h : Kept s s' k) (h' : Kept s' s'' m) : Kept s s'' (k + m) where
  ready := h'.ready
  counted := h'.counted
  mount := h'.mount.trans h.mount
  inUse i hi := h'.inUse i (h.inUse i hi)
  lower := Nat.le_trans h.lower h'.lower
  upper := Nat.le_trans h'.upper (by have := h.upper; omega)

theorem mono (h : Kept s s' k) (hle : k ≤ m) : Kept s s' m :=
  { h with upper := Nat.le_trans h.upper (Nat.add_le_add_left hle _) }

theorem same (hcounted : s.vol.Counted) (hready : Ready s'.vol.fs) (hmount : s'.root = s.root)
    (hused : s'.vol.vnodeInUse = s.vol.vnodeInUse) (hcount : s'.vol.vnodeCount = s.vol.vnodeCount) :
    Kept s s' 0 where
  ready := hready
  counted := by
    unfold Fat32Volume.Counted
    rw [hused, hcount]
    exact hcounted
  mount := hmount
  inUse i hi := by rwa [hused]
  lower := Nat.le_of_eq hcount.symm
  upper := Nat.le_of_eq hcount

theorem refl (hready : Ready s.vol.fs) (hcounted : s.vol.Counted) : Kept s s 0 :=
  same hcounted hready rfl rfl rfl

theorem grown {v' : Fat32Volume} (h : Grown s.vol v' k) : Kept s { s with vol := v' } k :=
  ⟨h.fs.ready, h.counted, rfl, h.inUse, h.count ▸ Nat.le_add_right _ _, Nat.le_of_eq h.count⟩

end Kept

section Resolve

variable {s s' : Vfs} {root fuel : Nat} {path : CString} {r : Resolution}

/-- What `resolve_path` returns for `len` components after it has taken `k` vnodes. -/
inductive Outcome (len k : Nat) : Resolution → Prop where
  | found {slot : Nat} {parent : Option Nat} {base : CString} (hk : k ≤ len) :
      Outcome len k ⟨0, some slot, parent, base⟩
  | missing {parent : Nat} {base : CString} (hk : k + 1 ≤ len) :
      Outcome len k ⟨1, none, some parent, base⟩
  | lost {code : Int} (hcode : code < 0) (hk : k ≤ len) : Outcome len k { code }

theorem walkSegments_grown {v v' : Fat32Volume} {curr : Nat} {segments : List CString}
    (hready : Ready v.fs) (hcounted : v.Counted) (hused : v.vnodeInUse curr = true)
    (h : walkSegments fuel segments curr v = some (r, v')) :
    ∃ k, Grown v v' k ∧ Outcome segments.length k r := by
  rcases List.eq_nil_or_concat' segments with rfl | ⟨before, leaf, rfl⟩
  · cases h
    exact ⟨0, Grown.reads hcounted hready.became, .lost (by decide) (Nat.zero_le _)⟩
  rw [List.length_append, List.length_singleton]
  by_cases hreach : ∃ parent, v.fs.locate fuel (v.vnodePool curr) before = some (some parent) ∧
      v.vnodeCount + before.length ≤ maxCachedVnodes
  · obtain ⟨parent, hlocate, hroom⟩ := hreach
    obtain ⟨v₁, slot, hgrown, hpool, hslot, hwalk⟩ := @walkSegments_reaches _ leaf _ _ _ _ hready
      hcounted hused hlocate hroom
    rw [hwalk] at h
    cases hfind : v₁.fs.find fuel (v₁.vnodePool slot) leaf with
    | none =>
      obtain ⟨fs', code, _, _, hlookup⟩ := lookup_find hgrown.fs.ready fuel (v₁.vnodePool slot) leaf
      rw [walkSegments, hlookup, hfind] at h
      cases h
    | some found =>
      by_cases hnone : found = none ∨ maxCachedVnodes ≤ v₁.vnodeCount
      · obtain ⟨v₂, hgrown₂, hleaf⟩ :=
          walkSegments_missing hgrown.fs.ready hgrown.counted hfind hnone
        rw [hleaf] at h
        cases h
        exact ⟨_, hgrown.trans hgrown₂, .missing (Nat.le_refl _)⟩
      rw [not_or] at hnone
      obtain ⟨child, rfl⟩ := Option.ne_none_iff_exists'.mp hnone.1
      obtain ⟨slot₂, v₂, hgrown₂, _, _, hleaf⟩ :=
        walkSegments_found hgrown.fs.ready hgrown.counted hfind (Nat.lt_of_not_le hnone.2)
      rw [hleaf] at h
      cases h
      exact ⟨_, hgrown.trans hgrown₂, .found (Nat.le_refl _)⟩
  · have hlost : ∀ parent, v.fs.locate fuel (v.vnodePool curr) before = some (some parent) →
        maxCachedVnodes < v.vnodeCount + before.length := by
      intro parent hlocate
      by_contra hroom
      exact hreach ⟨parent, hlocate, Nat.le_of_not_lt hroom⟩
    rcases @walkSegments_loses _ leaf _ _ _ hready hcounted hused hlost with
      hnone | ⟨v₁, k, hgrown, hk, hwalk⟩
    · rw [hnone] at h
      cases h
    · rw [hwalk] at h
      cases h
      exact ⟨k, hgrown, .lost (by decide) (Nat.le_succ_of_le hk)⟩

theorem resolvePath_grown (hs : s.Steady root) (h : s.resolvePath fuel path = some (r, s')) :
    ∃ k, Kept s s' k ∧ Outcome (resolved path).length k r := by
  cases hnorm : normalizePath path pathMax with
  | none =>
    unfold Vfs.resolvePath at h
    rw [hnorm] at h
    cases h
    exact ⟨0, Kept.refl hs.ready hs.counted, .lost (by decide) (Nat.zero_le _)⟩
  | some norm =>
    rw [resolvePath_segments hs.mount hnorm] at h
    split at h
    · cases h
      exact ⟨0, Kept.refl hs.ready hs.counted, .found (Nat.zero_le _)⟩
    obtain ⟨⟨r', v'⟩, hwalk, heq⟩ := Option.map_eq_some_iff.mp h
    cases heq
    obtain ⟨k, hgrown, hresult⟩ := walkSegments_grown hs.ready hs.counted hs.used hwalk
    exact ⟨k, Kept.grown hgrown, hresult⟩

end Resolve

end LlamaOS.Fs
