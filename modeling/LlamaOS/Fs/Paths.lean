import LlamaOS.Shared.ByteBuffer
import Mathlib.Data.List.TakeWhile

/-!
# Paths

`Vfs::normalize_path`, the code first and then what it computes: the segments between the
slashes are put on a stack one after the other. A path is the string before its NUL.
-/

namespace LlamaOS.Fs

abbrev CString := List (BitVec 8)

abbrev pathMax : Nat := 256
abbrev maxSegments : Nat := 16
abbrev segmentSize : Nat := 64

def slash : BitVec 8 := 0x2F
def dot : BitVec 8 := 0x2E

/-- The loop over the segments; every turn takes at least one character, so `fuel` is the length. -/
def normalizeLoop : Nat → CString → List CString → Option (List CString)
  | 0, _, segments => some segments
  | fuel + 1, rest, segments =>
    let rest := rest.dropWhile (· == slash)
    if rest = [] then some segments
    else
      let segment := rest.takeWhile (· != slash)
      let rest := rest.dropWhile (· != slash)
      if segment = [dot] then normalizeLoop fuel rest segments
      else if segment = [dot, dot] then normalizeLoop fuel rest segments.dropLast
      else if segments.length ≥ maxSegments ∨ segment.length ≥ segmentSize then none
      else normalizeLoop fuel rest (segments ++ [segment])

/-- The output loop; `out` is what has been written. -/
def joinSegments (maxLen : Nat) : List CString → CString → Option CString
  | [], out => some out
  | segment :: segments, out =>
    if out.length + 1 ≥ maxLen then none
    else if out.length + 1 + segment.length ≥ maxLen then none
    else joinSegments maxLen segments (out ++ slash :: segment)

/-- `none` stands for -1. -/
def normalizePath (inPath : CString) (maxLen : Nat) : Option CString :=
  if maxLen < 2 then none
  else if inPath.length ≥ pathMax ∨ inPath.length = 0 then none
  else
    match normalizeLoop inPath.length inPath [] with
    | none => none
    | some segments => if segments.length = 0 then some [slash] else joinSegments maxLen segments []

def place (stack : List CString) (segment : CString) : List CString :=
  if segment = [] ∨ segment = [dot] then stack
  else if segment = [dot, dot] then stack.dropLast
  else stack ++ [segment]

def resolved (path : CString) : List CString := (path.splitOn slash).foldl place []

def render (segments : List CString) : CString :=
  if segments = [] then [slash] else segments.flatMap (slash :: ·)

/-- A segment that stands for itself. -/
structure Proper (segment : CString) : Prop where
  nonempty : segment ≠ []
  notDot : segment ≠ [dot]
  notDots : segment ≠ [dot, dot]
  noSlash : slash ∉ segment

/-- The segments fit, and so does the stack after each of them. -/
structure StackFits (segments stack : List CString) : Prop where
  short : ∀ segment ∈ segments, segment ≠ [dot] → segment ≠ [dot, dot] →
    segment.length < segmentSize
  depth : ∀ k, ((segments.take k).foldl place stack).length ≤ maxSegments

variable {stack : List CString} {segment : CString}

theorem place_proper (h : Proper segment) : place stack segment = stack ++ [segment] := by
  rw [place, if_neg (not_or.mpr ⟨h.nonempty, h.notDot⟩), if_neg h.notDots]

theorem StackFits.nil (h : stack.length ≤ maxSegments) : StackFits [] stack where
  short segment hs := by cases hs
  depth k := by
    rw [List.take_nil]
    exact h

variable {segments : List CString}

theorem fits_cons (h : stack.length ≤ maxSegments) :
    StackFits (segment :: segments) stack ↔
      (segment ≠ [dot] → segment ≠ [dot, dot] → segment.length < segmentSize) ∧
        (place stack segment).length ≤ maxSegments ∧ StackFits segments (place stack segment) := by
  constructor
  · intro hfits
    refine ⟨hfits.short segment List.mem_cons_self, hfits.depth 1, ?_, ?_⟩
    · intro s hs
      exact hfits.short s (List.mem_cons_of_mem segment hs)
    · intro k
      exact hfits.depth (k + 1)
  · rintro ⟨hshort, _, hfits⟩
    refine ⟨?_, ?_⟩
    · exact List.forall_mem_cons.mpr ⟨hshort, hfits.short⟩
    · intro k
      cases k with
      | zero => exact h
      | succ k => exact hfits.depth k

/-- The stack with the two limits of the code. -/
def placeAll : List CString → List CString → Option (List CString)
  | [], stack => some stack
  | segment :: segments, stack =>
    if segment = [] ∨ segment = [dot] then placeAll segments stack
    else if segment = [dot, dot] then placeAll segments stack.dropLast
    else if stack.length ≥ maxSegments ∨ segment.length ≥ segmentSize then none
    else placeAll segments (stack ++ [segment])

theorem placeAll_empty (segments stack : List CString) :
    placeAll ([] :: segments) stack = placeAll segments stack := if_pos (Or.inl rfl)

theorem placeAll_eq_some_iff {stack out : List CString} (hstack : stack.length ≤ maxSegments) :
    (placeAll segments stack = some out ↔ StackFits segments stack ∧
      out = segments.foldl place stack) := by
  induction segments generalizing stack out with
  | nil =>
    rw [placeAll, Option.some_inj, eq_comm]
    exact ⟨fun h => ⟨StackFits.nil hstack, h⟩, fun h => h.2⟩
  | cons segment segments ih =>
    rw [fits_cons hstack, List.foldl_cons, placeAll]
    by_cases hskip : segment = [] ∨ segment = [dot]
    · have hplace : place stack segment = stack := if_pos hskip
      have hshort : segment ≠ [dot] → segment ≠ [dot, dot] → segment.length < segmentSize := by
        intro hdot _
        rw [hskip.resolve_right hdot]
        decide
      rw [if_pos hskip, hplace, ih hstack]
      exact ⟨fun h => ⟨⟨hshort, hstack, h.1⟩, h.2⟩, fun h => ⟨h.1.2.2, h.2⟩⟩
    · rw [if_neg hskip]
      by_cases hpop : segment = [dot, dot]
      · have hplace : place stack segment = stack.dropLast := by
          rw [place, if_neg hskip, if_pos hpop]
        have hshorter : stack.dropLast.length ≤ maxSegments := by
          rw [List.length_dropLast]
          omega
        rw [if_pos hpop, hplace, ih hshorter]
        exact ⟨fun h => ⟨⟨fun _ hne => absurd hpop hne, hshorter, h.1⟩, h.2⟩,
          fun h => ⟨h.1.2.2, h.2⟩⟩
      have hplace : place stack segment = stack ++ [segment] := by
        rw [place, if_neg hskip, if_neg hpop]
      have hlen : (stack ++ [segment]).length = stack.length + 1 := by
        rw [List.length_append, List.length_singleton]
      rw [if_neg hpop, hplace]
      by_cases hfull : stack.length ≥ maxSegments ∨ segment.length ≥ segmentSize
      · rw [if_pos hfull]
        constructor
        · intro h
          cases h
        rintro ⟨⟨hshort, hdepth, _⟩, _⟩
        have hsmall := hshort (fun h => hskip (Or.inr h)) hpop
        omega
      · have hroom : (stack ++ [segment]).length ≤ maxSegments := by omega
        rw [if_neg hfull, ih hroom]
        refine ⟨fun h => ⟨⟨fun _ _ => by omega, hroom, h.1⟩, h.2⟩, fun h => ⟨h.1.2.2, h.2⟩⟩

theorem placeAll_slash (rest : CString) (stack : List CString) :
    placeAll ((slash :: rest).splitOn slash) stack = placeAll (rest.splitOn slash) stack := by
  have hsplit : (slash :: rest).splitOn slash = [] :: rest.splitOn slash :=
    List.splitOn_append_cons_self [] rest
  rw [hsplit, placeAll_empty]

theorem placeAll_dropSlashes (rest : CString) (stack : List CString) :
    placeAll (rest.splitOn slash) stack = placeAll ((rest.dropWhile (· == slash)).splitOn slash)
      stack := by
  induction rest with
  | nil => rfl
  | cons c rest ih =>
    rw [List.dropWhile_cons]
    split
    · rename_i hc
      rw [beq_iff_eq.mp hc, placeAll_slash, ih]
    · rfl

theorem splitOn_segment (rest : CString) :
    ∃ segments, rest.splitOn slash = rest.takeWhile (· != slash) :: segments ∧
      ∀ stack, placeAll ((rest.dropWhile (· != slash)).splitOn slash) stack =
        placeAll segments stack := by
  have hall : slash ∉ rest.takeWhile (· != slash) := by
    intro hmem
    have hne := List.mem_takeWhile_imp hmem
    simp at hne
  have hparts := List.takeWhile_append_dropWhile (p := (· != slash)) (l := rest)
  cases hrest : rest.dropWhile (· != slash) with
  | nil =>
    refine ⟨[], ?_, fun stack => ?_⟩
    · rw [hrest, List.append_nil] at hparts
      rw [← List.splitOn_eq_singleton hall, hparts]
    · rw [List.splitOn_nil, placeAll_empty]
  | cons c tail =>
    have hc : c = slash := by
      have hhead := List.head?_dropWhile_not (p := (· != slash)) (l := rest)
      rw [hrest] at hhead
      simpa using hhead
    subst hc
    refine ⟨tail.splitOn slash, ?_, fun stack => placeAll_slash tail stack⟩
    rw [hrest] at hparts
    have hsplit := List.splitOn_append_cons_self (a := slash) (rest.takeWhile (· != slash)) tail
    rwa [hparts, List.splitOn_eq_singleton hall] at hsplit

theorem normalizeLoop_eq (fuel : Nat) (rest : CString) (stack : List CString)
    (hfuel : rest.length ≤ fuel) :
    normalizeLoop fuel rest stack = placeAll (rest.splitOn slash) stack := by
  induction fuel generalizing rest stack with
  | zero =>
    rw [List.length_eq_zero_iff.mp (Nat.le_zero.mp hfuel), List.splitOn_nil, placeAll_empty]
    rfl
  | succ fuel ih =>
    rw [placeAll_dropSlashes, normalizeLoop]
    generalize hrest : rest.dropWhile (· == slash) = tail
    have hle : tail.length ≤ rest.length := by
      rw [← hrest]
      exact (List.dropWhile_sublist _).length_le
    simp only
    split
    · rename_i hnil
      rw [hnil, List.splitOn_nil, placeAll_empty]
      rfl
    rename_i hne
    obtain ⟨segments, hsplit, hnext⟩ := splitOn_segment tail
    -- the tail starts with a character of the segment
    have hsegment : tail.takeWhile (· != slash) ≠ [] := by
      cases htail : tail with
      | nil => exact absurd htail hne
      | cons c rest' =>
        have hc : (c == slash) = false := by
          have hhead := List.head?_dropWhile_not (p := (· == slash)) (l := rest)
          rw [hrest, htail] at hhead
          simpa using hhead
        rw [List.takeWhile_cons, if_pos (by simp [bne, hc])]
        exact List.cons_ne_nil _ _
    have hshorter : (tail.dropWhile (· != slash)).length ≤ fuel := by
      have hparts :=
        congrArg List.length (List.takeWhile_append_dropWhile (p := (· != slash)) (l := tail))
      have hpos := List.length_pos_iff.mpr hsegment
      rw [List.length_append] at hparts
      omega
    rw [hsplit, placeAll]
    by_cases hdot : tail.takeWhile (· != slash) = [dot]
    · rw [if_pos hdot, if_pos (Or.inr hdot), ih _ _ hshorter, hnext]
    · rw [if_neg hdot, if_neg (not_or.mpr ⟨hsegment, hdot⟩), ih _ _ hshorter, ih _ _ hshorter,
        hnext, hnext]

/-!
## File names

The 8.3 names of directory entries, and long names, which are collected from several
entries in one buffer. A name is the string before its NUL.
-/

open ByteBuffer

abbrev dirEntrySize : Nat := 32
abbrev lfnBufSize : Nat := 256

def space : BitVec 8 := 0x20

def toUpper (c : BitVec 8) : BitVec 8 := if 0x61 ≤ c ∧ c ≤ 0x7A then c - 0x61 + 0x41 else c

def toLower (c : BitVec 8) : BitVec 8 := if 0x41 ≤ c ∧ c ≤ 0x5A then c - 0x41 + 0x61 else c

/-- The name `a` against the string at position `i` of the buffer `b`. -/
def strcasecmpMatch : CString → Buffer → Nat → Bool
  | [], b, i => b i == 0
  | c :: a, b, i =>
    if b i = 0 then false
    else if toLower c ≠ toLower (b i) then false
    else strcasecmpMatch a b (i + 1)

def formatTo83 (inName : CString) : List (BitVec 8) :=
  if inName = [] then List.replicate 11 space
  else if inName = [dot] then [dot].rightpad 11 space
  else if inName = [dot, dot] then [dot, dot].rightpad 11 space
  else
    let d := inName.findIdx (· == dot)
    (((inName.take (if d < 8 then d else 8)).map toUpper).rightpad 8 space) ++
      (((inName.drop (d + 1)).take 3).map toUpper).rightpad 3 space

/-- A field of the short name without the spaces at its end. -/
def trimField (field : List (BitVec 8)) : List (BitVec 8) :=
  (field.reverse.dropWhile (· == space)).reverse

def formatFrom83 (in83 : List (BitVec 8)) : CString :=
  let name := (trimField (in83.take 8)).map toLower
  let ext := (trimField ((in83.drop 8).take 3)).map toLower
  if ext = [] then name else name ++ dot :: ext

/-- A base and an extension as a name. -/
def dotted (base ext : CString) : CString := if ext = [] then base else base ++ dot :: ext

/-- Characters that `format_to_83` takes into a field. -/
def Plain (field : CString) : Prop := ∀ c ∈ field, c ≠ dot ∧ c ≠ space ∧ c ≠ 0

instance (field : CString) : Decidable (Plain field) := inferInstanceAs (Decidable (∀ c ∈ field, _))

structure ShortName (base ext : CString) : Prop where
  nonempty : base ≠ []
  baseFits : base.length ≤ 8
  extFits : ext.length ≤ 3
  plainBase : Plain base
  plainExt : Plain ext

theorem toLower_toUpper : ∀ c, toLower (toUpper c) = toLower c := by decide +kernel

theorem toUpper_toLower : ∀ c, toUpper (toLower c) = toUpper c := by decide +kernel

theorem toUpper_ne_space : ∀ c, c ≠ space → toUpper c ≠ space := by decide +kernel

theorem toLower_plain :
    ∀ c, c ≠ dot ∧ c ≠ space ∧ c ≠ 0 → toLower c ≠ dot ∧ toLower c ≠ space ∧ toLower c ≠ 0 := by
  decide +kernel

variable {base ext : CString}

theorem Plain.lower {field : CString} (h : Plain field) : Plain (field.map toLower) := by
  intro c hc
  obtain ⟨c', hc', rfl⟩ := List.mem_map.mp hc
  exact toLower_plain c' (h c' hc')

theorem ShortName.lower (h : ShortName base ext) :
    ShortName (base.map toLower) (ext.map toLower) where
  nonempty hnil := h.nonempty (List.map_eq_nil_iff.mp hnil)
  baseFits := by
    rw [List.length_map]
    exact h.baseFits
  extFits := by
    rw [List.length_map]
    exact h.extFits
  plainBase := h.plainBase.lower
  plainExt := h.plainExt.lower

theorem dotted_lower (base ext : CString) :
    (dotted base ext).map toLower = dotted (base.map toLower) (ext.map toLower) := by
  unfold dotted
  by_cases hext : ext = []
  · rw [if_pos hext, if_pos (List.map_eq_nil_iff.mpr hext)]
  · rw [if_neg hext, if_neg fun hnil => hext (List.map_eq_nil_iff.mp hnil), List.map_append,
      List.map_cons]
    rfl

theorem trimField_rightpad {field : CString} (h : Plain field) (n : Nat) :
    trimField ((field.map toUpper).rightpad n space) = field.map toUpper := by
  have hkeep :
      (field.map toUpper).reverse.dropWhile (· == space) = (field.map toUpper).reverse := by
    rw [List.dropWhile_eq_self_iff]
    intro hpos hspace
    obtain ⟨c, hc, heq⟩ := List.mem_map.mp (List.mem_reverse.mp (List.getElem_mem hpos))
    rw [← heq] at hspace
    exact toUpper_ne_space c (h c hc).2.1 (beq_iff_eq.mp hspace)
  rw [trimField, List.rightpad, List.reverse_append, List.reverse_replicate,
    List.dropWhile_append_of_pos, hkeep, List.reverse_reverse]
  intro c hc
  exact beq_iff_eq.mpr (List.eq_of_mem_replicate hc)

theorem formatTo83_dotted (h : ShortName base ext) :
    formatTo83 (dotted base ext) = (base.map toUpper).rightpad 8 space ++
      (ext.map toUpper).rightpad 3 space := by
  have hdot : ∀ c ∈ base, (c == dot) = false := fun c hc => beq_false_of_ne (h.plainBase c hc).1
  have hsplit : ∃ rest, dotted base ext = base ++ rest ∧ (rest = [] ∨ ∃ r, rest = dot :: r) ∧
      rest.drop 1 = ext := by
    unfold dotted
    split
    · rename_i hext
      exact ⟨[], (List.append_nil base).symm, Or.inl rfl, hext.symm⟩
    · exact ⟨dot :: ext, rfl, Or.inr ⟨ext, rfl⟩, rfl⟩
  obtain ⟨rest, hname, hrest, hdrop⟩ := hsplit
  have hidx : (base ++ rest).findIdx (· == dot) = base.length := by
    rw [List.findIdx_append, List.findIdx_eq_length_of_false hdot, if_neg (Nat.lt_irrefl _)]
    rcases hrest with rfl | ⟨r, rfl⟩
    · rw [List.findIdx_nil, Nat.zero_add]
    · rw [List.findIdx_cons, beq_self_eq_true, cond_true, Nat.zero_add]
  have hfirst : ∀ l, base ++ rest ≠ dot :: l := by
    intro l heq
    obtain ⟨c, base', rfl⟩ := List.exists_cons_of_ne_nil h.nonempty
    exact (h.plainBase c List.mem_cons_self).1 (List.cons.inj heq).1
  have htake : (if base.length < 8 then base.length else 8) = base.length := by
    have hfits := h.baseFits
    split
    · rfl
    · omega
  rw [hname, formatTo83, if_neg fun heq => h.nonempty (List.append_eq_nil_iff.mp heq).1,
    if_neg (hfirst _), if_neg (hfirst _)]
  simp only [hidx, htake, List.take_left]
  rw [← List.drop_drop, List.drop_left, hdrop, List.take_of_length_le h.extFits]

theorem formatFrom83_dotted (h : ShortName base ext) :
    formatFrom83 (formatTo83 (dotted base ext)) = (dotted base ext).map toLower := by
  have hlower : ∀ field : CString, (field.map toUpper).map toLower = field.map toLower := by
    intro field
    rw [List.map_map]
    exact List.map_congr_left fun c _ => toLower_toUpper c
  have hbase : ((base.map toUpper).rightpad 8 space).length = 8 := by
    rw [List.length_rightpad, List.length_map]
    exact Nat.max_eq_left h.baseFits
  have hext : ((ext.map toUpper).rightpad 3 space).length = 3 := by
    rw [List.length_rightpad, List.length_map]
    exact Nat.max_eq_left h.extFits
  rw [formatTo83_dotted h, formatFrom83, List.take_left' hbase, List.drop_left' hbase,
    List.take_of_length_le (Nat.le_of_eq hext), trimField_rightpad h.plainBase,
      trimField_rightpad h.plainExt,
    hlower, hlower, dotted_lower]
  rfl

theorem formatTo83_lower (h : ShortName base ext) :
    formatTo83 ((dotted base ext).map toLower) = formatTo83 (dotted base ext) := by
  have hupper : ∀ field : CString, (field.map toLower).map toUpper = field.map toUpper := by
    intro field
    rw [List.map_map]
    exact List.map_congr_left fun c _ => toUpper_toLower c
  rw [dotted_lower, formatTo83_dotted h.lower, formatTo83_dotted h, hupper, hupper]

theorem short_names_round_trip (h : ShortName base ext) {base' ext' : CString}
    (h' : ShortName base' ext') :
    formatFrom83 (formatTo83 (dotted base ext)) = (dotted base ext).map toLower ∧
      (formatTo83 (dotted base ext) = formatTo83 (dotted base' ext') ↔
        (dotted base ext).map toLower = (dotted base' ext').map toLower) := by
  refine ⟨formatFrom83_dotted h, fun heq => ?_, fun heq => ?_⟩
  · rw [← formatFrom83_dotted h, heq, formatFrom83_dotted h']
  · rw [← formatTo83_lower h, heq, formatTo83_lower h']

theorem short_names_round_trip_sample :
    formatFrom83 (formatTo83 (dotted [0x41, 0x62] [0x54])) = dotted [0x61, 0x62] [0x74] ∧
      formatTo83 (dotted [0x41, 0x62] [0x54]) = formatTo83 (dotted [0x61, 0x42] [0x74]) := by
  have hname : ShortName [0x41, 0x62] [0x54] :=
    ⟨by decide, by decide, by decide, by decide, by decide⟩
  have hname' : ShortName [0x61, 0x42] [0x74] :=
    ⟨by decide, by decide, by decide, by decide, by decide⟩
  obtain ⟨hback, hiff⟩ := short_names_round_trip hname hname'
  exact ⟨hback, hiff.mpr (by decide +kernel)⟩

/-- One of the three loops of `extract_lfn_chars`; `true` where it returns. -/
def lfnLoop : List Nat → Nat → Buffer → Buffer × Bool
  | [], _, lfnBuf => (lfnBuf, false)
  | ch :: chars, idx, lfnBuf =>
    if idx < lfnBufSize - 1 then
      if ch = 0 ∨ ch = 0xFFFF then (patch lfnBuf idx [0], true)
      else lfnLoop chars (idx + 1) (patch lfnBuf idx [BitVec.ofNat 8 (ch &&& 0x7F)])
    else (lfnBuf, false)

/-- The characters of a field of a long-name entry. -/
def lfnField (dir : Buffer) (pos count : Nat) : List Nat :=
  (List.range count).map fun c => loadLe dir (pos + 2 * c) 2

/-- The entry at `off` of the directory's cluster. -/
def extractLfnChars (dir : Buffer) (off : Nat) (lfnBuf : Buffer) : Buffer :=
  let seq := (dir off &&& 0x1F).toNat
  if seq ≥ 1 ∧ seq ≤ 20 then
    let baseIdx := (seq - 1) * 13
    match lfnLoop (lfnField dir (off + 1) 5) baseIdx lfnBuf with
    | (lfnBuf, true) => lfnBuf
    | (lfnBuf, false) =>
      match lfnLoop (lfnField dir (off + 14) 6) (baseIdx + 5) lfnBuf with
      | (lfnBuf, true) => lfnBuf
      | (lfnBuf, false) =>
        match lfnLoop (lfnField dir (off + 28) 2) (baseIdx + 11) lfnBuf with
        | (lfnBuf, true) => lfnBuf
        | (lfnBuf, false) =>
          if baseIdx + 13 < lfnBufSize then patch lfnBuf (baseIdx + 13) [0] else lfnBuf
  else lfnBuf

/-- `strncpy` of the string in the buffer to a field of `size` characters and a NUL. -/
def bufString (b : Buffer) (size : Nat) : CString := (slice b 0 size).takeWhile (· != 0)

end LlamaOS.Fs
