import LlamaOS.Fs.Paths

/-!
# Normalised paths

The output of `normalize_path` is the stack of its segments, and a path of that form is its
own normal form.
-/

namespace LlamaOS.Fs

variable {maxLen : Nat} {segments : List CString}

theorem joinSegments_eq_some_iff {written out : CString} (hfits : written.length < maxLen) :
    (joinSegments maxLen segments written = some out ↔
      (written ++ segments.flatMap (slash :: ·)).length < maxLen ∧
        out = written ++ segments.flatMap (slash :: ·)) := by
  induction segments generalizing written out with
  | nil =>
    rw [joinSegments, Option.some_inj, List.flatMap_nil, List.append_nil, eq_comm]
    exact ⟨fun h => ⟨hfits, h⟩, fun h => h.2⟩
  | cons segment segments ih =>
    have hsplit : written ++ (segment :: segments).flatMap (slash :: ·) =
        (written ++ slash :: segment) ++ segments.flatMap (slash :: ·) := by
      rw [List.flatMap_cons, List.append_assoc]
    have hlen : (written ++ slash :: segment).length = written.length + 1 + segment.length := by
      rw [List.length_append, List.length_cons]
      omega
    rw [hsplit, joinSegments]
    by_cases hfirst : written.length + 1 ≥ maxLen
    · rw [if_pos hfirst, List.length_append, hlen]
      constructor
      · intro h
        cases h
      · intro h
        omega
    rw [if_neg hfirst]
    by_cases hsegment : written.length + 1 + segment.length ≥ maxLen
    · rw [if_pos hsegment, List.length_append, hlen]
      constructor
      · intro h
        cases h
      · intro h
        omega
    · rw [if_neg hsegment]
      exact ih (by omega)

variable {path : CString}

theorem normalizePath_eq_some_iff {out : CString} (hmax : 2 ≤ maxLen) :
    normalizePath path maxLen = some out ↔
      (0 < path.length ∧ path.length < pathMax) ∧ StackFits (path.splitOn slash) [] ∧
        (render (resolved path)).length < maxLen ∧ out = render (resolved path) := by
  have hempty : ([] : List CString).length ≤ maxSegments := by decide
  unfold normalizePath
  rw [if_neg (by omega)]
  by_cases hlen : path.length ≥ pathMax ∨ path.length = 0
  · rw [if_pos hlen]
    constructor
    · intro h
      cases h
    · intro h
      omega
  rw [if_neg hlen, normalizeLoop_eq _ _ _ (Nat.le_refl _)]
  have hrange : 0 < path.length ∧ path.length < pathMax := by omega
  cases hplace : placeAll (path.splitOn slash) [] with
  | none =>
    constructor
    · intro h
      cases h
    · rintro ⟨_, hfits, _⟩
      have hsome := (placeAll_eq_some_iff hempty).mpr ⟨hfits, rfl⟩
      rw [hplace] at hsome
      cases hsome
  | some segments =>
    obtain ⟨hfits, hsegments⟩ := (placeAll_eq_some_iff hempty).mp hplace
    have hresolved : resolved path = segments := hsegments.symm
    rw [hresolved]
    simp only [hrange, hfits, true_and]
    unfold render
    by_cases hnil : segments = []
    · rw [if_pos (List.length_eq_zero_iff.mpr hnil), if_pos hnil, Option.some_inj, eq_comm]
      exact ⟨fun h => ⟨hmax, h⟩, fun h => h.2⟩
    · rw [if_neg (fun h => hnil (List.length_eq_zero_iff.mp h)), if_neg hnil,
        joinSegments_eq_some_iff (by rw [List.length_nil]; omega), List.nil_append]

theorem mem_splitOn {rest segment : CString} (h : segment ∈ rest.splitOn slash) :
    ∀ c ∈ segment, c ∈ rest ∧ c ≠ slash := by
  induction rest generalizing segment with
  | nil =>
    rw [List.splitOn_nil, List.mem_singleton] at h
    subst h
    intro c hc
    cases hc
  | cons b rest ih =>
    have hlift : ∀ {segment : CString}, segment ∈ rest.splitOn slash →
        ∀ c ∈ segment, c ∈ b :: rest ∧ c ≠ slash := by
      intro segment hsegment c hc
      exact ⟨List.mem_cons_of_mem b (ih hsegment c hc).1, (ih hsegment c hc).2⟩
    by_cases hb : b = slash
    · subst hb
      have hsplit : (slash :: rest).splitOn slash = [] :: rest.splitOn slash :=
        List.splitOn_append_cons_self [] rest
      rw [hsplit, List.mem_cons] at h
      rcases h with rfl | h
      · intro c hc
        cases hc
      · exact hlift h
    · rw [List.splitOn_cons_eq_if_modifyHead, if_neg (by simpa using hb)] at h
      cases hrest : rest.splitOn slash with
      | nil => exact absurd hrest (List.splitOn_ne_nil _ _)
      | cons first others =>
        rw [hrest, List.modifyHead_cons, List.mem_cons] at h
        rcases h with rfl | h
        · intro c hc
          rcases List.mem_cons.mp hc with rfl | hc
          · exact ⟨List.mem_cons_self, hb⟩
          · exact hlift (by rw [hrest]; exact List.mem_cons_self) c hc
        · exact hlift (by rw [hrest]; exact List.mem_cons_of_mem first h)

/-- What is on the stack was there before or is a segment that stands for itself. -/
theorem mem_foldl_place {stack : List CString} {s : CString} (hs : s ∈ segments.foldl place stack) :
    s ∈ stack ∨ s ∈ segments ∧ s ≠ [] ∧ s ≠ [dot] ∧ s ≠ [dot, dot] := by
  induction segments generalizing stack s with
  | nil => exact Or.inl hs
  | cons segment segments ih =>
    rcases ih hs with hstack | ⟨hmem, hkeep⟩
    · unfold place at hstack
      split at hstack
      · exact Or.inl hstack
      rename_i hskip
      split at hstack
      · exact Or.inl ((List.dropLast_sublist stack).subset hstack)
      rename_i hdots
      rcases List.mem_append.mp hstack with hstack | hlast
      · exact Or.inl hstack
      · rw [List.mem_singleton.mp hlast]
        exact Or.inr ⟨List.mem_cons_self, fun h => hskip (Or.inl h),
          fun h => hskip (Or.inr h), hdots⟩
    · exact Or.inr ⟨List.mem_cons_of_mem segment hmem, hkeep⟩

theorem mem_resolved {s : CString} (hs : s ∈ resolved path) :
    s ∈ path.splitOn slash ∧ Proper s := by
  rcases mem_foldl_place hs with hnil | ⟨hmem, hne, hdot, hdots⟩
  · cases hnil
  · exact ⟨hmem, hne, hdot, hdots, fun hslash => (mem_splitOn hmem slash hslash).2 rfl⟩

section

variable (h : ∀ s ∈ segments, Proper s)
include h

theorem splitOn_flatMap : (segments.flatMap (slash :: ·)).splitOn slash = [] :: segments := by
  have hstep : ∀ (first : CString) (rest : List CString), slash ∉ first → (∀ s ∈ rest, Proper s) →
      (first ++ rest.flatMap (slash :: ·)).splitOn slash = first :: rest := by
    intro first rest hfirst hrest
    induction rest generalizing first with
    | nil => rw [List.flatMap_nil, List.append_nil, List.splitOn_eq_singleton hfirst]
    | cons segment rest ih =>
      have hnext := ih segment (hrest segment List.mem_cons_self).noSlash
        fun s hs => hrest s (List.mem_cons_of_mem segment hs)
      rw [List.flatMap_cons, List.cons_append, List.splitOn_append_cons_self,
        List.splitOn_eq_singleton hfirst, hnext]
      rfl
  exact hstep [] segments List.not_mem_nil h

theorem foldl_place_of_proper (stack : List CString) :
    segments.foldl place stack = stack ++ segments := by
  induction segments generalizing stack with
  | nil => rw [List.foldl_nil, List.append_nil]
  | cons segment segments ih =>
    rw [List.foldl_cons, place_proper (h segment List.mem_cons_self),
      ih fun s hs => h s (List.mem_cons_of_mem segment hs), List.append_assoc,
        List.singleton_append]

theorem splitOn_render :
    (render segments).splitOn slash = [] :: if segments = [] then [[]] else segments := by
  unfold render
  split
  · exact List.splitOn_append_cons_self [] []
  · exact splitOn_flatMap h

theorem resolved_render : resolved (render segments) = segments := by
  rw [resolved, splitOn_render h, List.foldl_cons]
  have hfirst : place [] [] = [] := if_pos (Or.inl rfl)
  rw [hfirst]
  split
  · rename_i hnil
    rw [hnil]
    exact hfirst
  · rw [foldl_place_of_proper h, List.nil_append]

omit h in
theorem render_pos (segments : List CString) : 0 < (render segments).length := by
  unfold render
  split
  · decide
  rename_i hne
  obtain ⟨first, rest, rfl⟩ := List.exists_cons_of_ne_nil hne
  exact Nat.succ_pos _

theorem stackFits_render (hshort : ∀ s ∈ segments, s.length < segmentSize)
    (hdepth : segments.length ≤ maxSegments) :
    StackFits ((render segments).splitOn slash) [] := by
  have hfirst : place [] [] = [] := if_pos (Or.inl rfl)
  rw [splitOn_render h, fits_cons (by decide), hfirst]
  refine ⟨fun _ _ => by decide, by decide, ?_⟩
  split
  · rw [fits_cons (by decide), hfirst]
    exact ⟨fun _ _ => by decide, by decide, StackFits.nil (by decide)⟩
  refine ⟨fun s hs _ _ => hshort s hs, ?_⟩
  intro k
  rw [foldl_place_of_proper fun s hs => h s (List.mem_of_mem_take hs), List.nil_append,
    List.length_take]
  omega

end

/-- `normalize_path` folds the segments of the path on a stack, within its limits. -/
theorem normalizePath_correct (path : CString) (maxLen : Nat) (hlo : 2 ≤ maxLen)
    (hhi : maxLen ≤ 256) :
    ((normalizePath path maxLen).isSome = true ↔
      (0 < path.length ∧ path.length < 256) ∧ StackFits (path.splitOn slash) [] ∧
        (render (resolved path)).length + 1 ≤ maxLen) ∧
    ∀ out, normalizePath path maxLen = some out →
      out = render (resolved path) ∧ (out = [slash] ∨ out.splitOn slash = [] :: resolved path) ∧
        (∀ s ∈ resolved path, Proper s) ∧ normalizePath out maxLen = some out := by
  have hproper : ∀ s ∈ resolved path, Proper s := fun s hs => (mem_resolved hs).2
  constructor
  · rw [Option.isSome_iff_exists]
    simp only [normalizePath_eq_some_iff hlo]
    constructor
    · rintro ⟨out, hlen, hfits, hroom, _⟩
      exact ⟨hlen, hfits, hroom⟩
    · rintro ⟨hlen, hfits, hroom⟩
      exact ⟨_, hlen, hfits, hroom, rfl⟩
  · intro out hout
    obtain ⟨_, hfits, hroom, rfl⟩ := (normalizePath_eq_some_iff hlo).mp hout
    refine ⟨rfl, ?_, hproper, ?_⟩
    · rw [splitOn_render hproper]
      by_cases hnil : resolved path = []
      · rw [hnil]
        exact Or.inl rfl
      · rw [if_neg hnil]
        exact Or.inr rfl
    · have hshort : ∀ s ∈ resolved path, s.length < segmentSize := by
        intro s hs
        obtain ⟨hmem, hs⟩ := mem_resolved hs
        exact hfits.short s hmem hs.notDot hs.notDots
      have hdepth : (resolved path).length ≤ maxSegments := by
        have hall := hfits.depth (path.splitOn slash).length
        rwa [List.take_length] at hall
      apply (normalizePath_eq_some_iff hlo).mpr
      rw [resolved_render hproper]
      exact ⟨⟨render_pos _, Nat.lt_of_lt_of_le hroom hhi⟩, stackFits_render hproper hshort hdepth,
        hroom, rfl⟩

theorem normalizePath_sample :
    normalizePath [0x2F, 0x61, 0x2F, 0x2E, 0x2F, 0x62, 0x2F, 0x2F, 0x2E, 0x2E, 0x2F, 0x63] 128 =
        some [0x2F, 0x61, 0x2F, 0x63] ∧
      normalizePath [0x2F, 0x61, 0x2F, 0x63] 128 = some [0x2F, 0x61, 0x2F, 0x63] := by
  have hout :
      normalizePath [0x2F, 0x61, 0x2F, 0x2E, 0x2F, 0x62, 0x2F, 0x2F, 0x2E, 0x2E, 0x2F, 0x63] 128 =
      some [0x2F, 0x61, 0x2F, 0x63] := by decide +kernel
  exact ⟨hout, ((normalizePath_correct _ 128 (by decide) (by decide)).2 _ hout).2.2.2⟩

end LlamaOS.Fs
