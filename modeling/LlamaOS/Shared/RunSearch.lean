import Mathlib.Data.Nat.Notation
import Mathlib.Tactic.Common

/-!
# Runs of free positions

One left-to-right scan that looks for a run of a given length, and one that
measures the longest run. Both carry the length of the run that ends at the
current position; the specifications below say exactly which runs they see.
-/

namespace RunSearch

variable (free : Nat → Bool)

/-- All `count` positions from `start` on are free. -/
def Run (start count : Nat) : Prop := ∀ j, start ≤ j → j < start + count → free j = true

/-- Scan `left` positions from `f`; `runLen` free positions end just before `f`,
the first of them `runStart`. -/
def search (needed : Nat) : Nat → Nat → Nat → Nat → Option Nat
  | 0, _, _, _ => none
  | left + 1, f, runStart, runLen =>
    if free f then
      let runStart := if runLen = 0 then f else runStart
      if runLen + 1 = needed then some runStart
      else search needed left (f + 1) runStart (runLen + 1)
    else search needed left (f + 1) runStart 0

def longest : Nat → Nat → Nat → Nat → Nat
  | 0, _, _, maxRun => maxRun
  | left + 1, f, curRun, maxRun =>
    if free f then
      longest left (f + 1) (curRun + 1) (if curRun + 1 > maxRun then curRun + 1 else maxRun)
    else longest left (f + 1) 0 maxRun

variable {free}

variable {s n s' : Nat}

theorem Run.sub {n' : Nat} (h : Run free s n) (hs : s ≤ s') (hn : s' + n' ≤ s + n) :
    Run free s' n' := fun j hlo hhi => h j (by omega) (by omega)

variable {f len : Nat}

theorem Run.snoc (hle : len ≤ f) (h : Run free (f - len) len) (hf : free f = true) :
    Run free (f + 1 - (len + 1)) (len + 1) := by
  intro j hlo hhi
  by_cases hj : j = f
  · rw [hj]; exact hf
  · exact h j (by omega) (by omega)

/-- A blocked position splits the window: what lies before it is too short. -/
theorem run_after_block (hle : len ≤ f) (hlen : len < n) (hf : free f = false) (hlo : f - len ≤ s)
    (h : Run free s n) : f + 1 ≤ s := by
  by_contra hn
  have hfree := h f (by omega) (by omega)
  rw [hf] at hfree
  exact Bool.noConfusion hfree

variable {needed left runStart runLen : Nat}

theorem search_eq_some (hle : runLen ≤ f) (hlen : runLen < needed)
    (hrs : runLen ≠ 0 → runStart = f - runLen) (hrun : Run free (f - runLen) runLen)
    (h : search free needed left f runStart runLen = some s) :
    f - runLen ≤ s ∧ s + needed ≤ f + left ∧ Run free s needed ∧
      ∀ s', f - runLen ≤ s' → Run free s' needed → s ≤ s' := by
  induction left generalizing f runStart runLen with
  | zero => simp [search] at h
  | succ left ih =>
    simp only [search] at h
    split at h
    · rename_i hf
      have hstart : (if runLen = 0 then f else runStart) = f - runLen := by
        split
        · omega
        · exact hrs (by assumption)
      have hsnoc := Run.snoc hle hrun hf
      split at h
      · rename_i hdone
        obtain rfl := Option.some.inj h
        rw [hstart]
        exact ⟨Nat.le_refl _, by omega, hsnoc.sub (by omega) (by omega), fun s' hlo _ => hlo⟩
      · obtain ⟨hlo, hhi, hr, hleast⟩ :=
          ih (by omega) (by omega) (fun _ => by rw [hstart]; omega) hsnoc h
        exact ⟨by omega, by omega, hr, fun s' hlo' => hleast s' (by omega)⟩
    · rename_i hf
      have hblock : free f = false := by simpa using hf
      obtain ⟨hlo, hhi, hr, hleast⟩ := ih (Nat.zero_le _) (by omega) (fun hz => absurd rfl hz)
        (fun j hlo hhi => by omega) h
      refine ⟨by omega, by omega, hr, fun s' hlo' hr' => hleast s' ?_ hr'⟩
      have hs := run_after_block hle hlen hblock hlo' hr'
      omega

theorem search_eq_none (hle : runLen ≤ f) (hlen : runLen < needed)
    (hrun : Run free (f - runLen) runLen) (h : search free needed left f runStart runLen = none)
    (s : Nat) (hlo : f - runLen ≤ s) (hhi : s + needed ≤ f + left) : ¬ Run free s needed := by
  induction left generalizing f runStart runLen with
  | zero => omega
  | succ left ih =>
    intro hr
    simp only [search] at h
    split at h
    · rename_i hf
      split at h
      · simp at h
      · exact ih (by omega) (by omega) (Run.snoc hle hrun hf) h (by omega) (by omega) hr
    rename_i hf
    have hblock : free f = false := by simpa using hf
    have hs := run_after_block hle hlen hblock hlo hr
    exact ih (Nat.zero_le _) (by omega) (fun j hlo hhi => by omega) h (by omega) (by omega) hr

theorem search_isSome_iff (hneeded : 0 < needed) :
    (search free needed left f runStart 0).isSome ↔ ∃ s, f ≤ s ∧ s + needed ≤ f + left ∧
      Run free s needed := by
  have hempty : Run free (f - 0) 0 := fun j hlo hhi => by omega
  cases hs : search free needed left f runStart 0 with
  | none =>
    simp only [Option.isSome_none, Bool.false_eq_true, false_iff]
    rintro ⟨s, hlo, hhi, hr⟩
    exact search_eq_none (Nat.zero_le _) hneeded hempty hs s (by omega) hhi hr
  | some s =>
    simp only [Option.isSome_some, true_iff]
    obtain ⟨hlo, hhi, hr, _⟩ :=
      search_eq_some (Nat.zero_le _) hneeded (fun hz => absurd rfl hz) hempty hs
    exact ⟨s, by omega, hhi, hr⟩

theorem le_longest_iff {curRun maxRun : Nat} (hle : curRun ≤ f) (hmax : curRun ≤ maxRun)
    (hrun : Run free (f - curRun) curRun) :
    n ≤ longest free left f curRun maxRun ↔ n ≤ maxRun ∨ ∃ s, f - curRun ≤ s ∧ s + n ≤ f + left ∧
      Run free s n := by
  induction left generalizing f curRun maxRun with
  | zero =>
    simp only [longest]
    constructor
    · exact Or.inl
    · rintro (h | ⟨s, hlo, hhi, _⟩)
      · exact h
      · omega
  | succ left ih =>
    simp only [longest]
    split
    · rename_i hf
      have hsnoc := Run.snoc hle hrun hf
      rw [ih (by omega) (by split <;> omega) hsnoc]
      constructor
      · rintro (h | ⟨s, hlo, hhi, hr⟩)
        · split at h
          · by_cases hfull : n ≤ maxRun
            · exact Or.inl hfull
            · exact Or.inr ⟨f - curRun, Nat.le_refl _, by omega, hsnoc.sub (by omega) (by omega)⟩
          · exact Or.inl h
        · exact Or.inr ⟨s, by omega, by omega, hr⟩
      · rintro (h | ⟨s, hlo, hhi, hr⟩)
        · exact Or.inl (by split <;> omega)
        · exact Or.inr ⟨s, by omega, by omega, hr⟩
    · rename_i hf
      have hblock : free f = false := by simpa using hf
      rw [ih (Nat.zero_le _) (Nat.zero_le _) (fun j hlo hhi => by omega)]
      constructor
      · rintro (h | ⟨s, hlo, hhi, hr⟩)
        · exact Or.inl h
        · exact Or.inr ⟨s, by omega, by omega, hr⟩
      · rintro (h | ⟨s, hlo, hhi, hr⟩)
        · exact Or.inl h
        · by_cases hshort : n ≤ curRun
          · exact Or.inl (by omega)
          · have hs := run_after_block hle (by omega) hblock hlo hr
            exact Or.inr ⟨s, by omega, by omega, hr⟩

end RunSearch
