import LlamaOS.Boot.Multiboot2
import Mathlib.Data.List.Basic

/-!
# Arguments on the command line

`has_argument` and `get_argument_value` run over the command line with the same two loops. They
find the first token with a property, and the tokens are the parts between white space.
-/

namespace LlamaOS.Boot

def isSpace (c : UInt8) : Bool := c = 0x20 || c = 0x09 || c = 0x0A || c = 0x0D

abbrev equalsSign : UInt8 := 0x3D

/-- The end of a list is the NUL of the string. -/
def strncmp : List UInt8 → List UInt8 → Nat → Int
  | _, _, 0 => 0
  | a :: lhs, b :: rhs, count + 1 =>
    if a ≠ b then (a.toNat : Int) - b.toNat else strncmp lhs rhs count
  | lhs, rhs, _ + 1 => ((lhs.headD 0).toNat : Int) - (rhs.headD 0).toNat

/-- The first token that passes the test: the text from its start on, and its length. -/
def scanTokens (test : List UInt8 → Nat → Bool) : Nat → List UInt8 → Option (List UInt8 × Nat)
  | 0, _ => none
  | left + 1, p =>
    let tokenStart := p.dropWhile isSpace
    if tokenStart = [] then none
    else
      let tokenLen := (tokenStart.takeWhile (!isSpace ·)).length
      if test tokenStart tokenLen then some (tokenStart, tokenLen)
      else scanTokens test left (tokenStart.drop tokenLen)

def isKeyed (name tokenStart : List UInt8) (tokenLen : Nat) : Bool :=
  tokenLen > name.length && tokenStart[name.length]? = some equalsSign &&
    strncmp tokenStart name name.length = 0

def isArgument (name tokenStart : List UInt8) (tokenLen : Nat) : Bool :=
  (tokenLen = name.length && strncmp tokenStart name name.length = 0) ||
    isKeyed name tokenStart tokenLen

namespace BootInformation

def hasArgument (info : BootInformation) (argName : List UInt8) : Bool :=
  if argName = [] then false
  else (scanTokens (isArgument argName) info.commandLine.length info.commandLine).isSome

/-- The result and the text in the buffer, which holds `dest` before. -/
def getArgumentValue (info : BootInformation) (key dest : List UInt8) (destCapacity : Nat) :
    Option (Bool × List UInt8) :=
  if key = [] ∨ destCapacity = 0 then some (false, dest)
  else
    match scanTokens (isKeyed key) info.commandLine.length info.commandLine with
    | none => some (false, [])
    | some (tokenStart, tokenLen) => do
      let value ← safeCopyString (fun a => tokenStart[a]?) destCapacity (key.length + 1)
        (tokenLen - key.length - 1)
      return (true, value)

end BootInformation

def tokens (line : List UInt8) : List (List UInt8) := (line.splitOnP isSpace).filter (· ≠ [])

theorem tokens_space {c : UInt8} (hc : isSpace c = true) (line : List UInt8) :
    tokens (c :: line) = tokens line := by
  rw [tokens, List.splitOnP_cons_eq_if_modifyHead, if_pos hc]
  rfl

theorem tokens_dropWhile (line : List UInt8) : tokens (line.dropWhile isSpace) = tokens line := by
  induction line with
  | nil => rfl
  | cons c line ih =>
    rw [List.dropWhile_cons]
    split
    · rename_i hc
      rw [ih, tokens_space hc]
    · rfl

theorem tokens_append {token rest : List UInt8} (hne : token ≠ [])
    (htoken : ∀ c ∈ token, isSpace c = false) (hrest : ∀ c ∈ rest.head?, isSpace c = true) :
    tokens (token ++ rest) = token :: tokens rest := by
  cases rest with
  | nil =>
    rw [List.append_nil, tokens, List.splitOnP_eq_singleton htoken]
    exact List.filter_cons_of_pos (decide_eq_true hne)
  | cons c rest =>
    have hc := hrest c rfl
    rw [tokens_space hc, tokens, List.splitOnP_append_cons_of_forall_mem htoken c hc]
    exact List.filter_cons_of_pos (decide_eq_true hne)

theorem strncmp_eq_zero_iff {name : List UInt8} {s : List UInt8} (hle : name.length ≤ s.length) :
    (strncmp s name name.length = 0 ↔ name <+: s) := by
  induction name generalizing s with
  | nil => exact iff_of_true (by rw [List.length_nil, strncmp]) List.nil_prefix
  | cons b name ih =>
    cases s with
    | nil => cases hle
    | cons a s =>
      rw [List.length_cons, strncmp, List.cons_prefix_cons]
      split
      · rename_i hne
        have hnat : a.toNat ≠ b.toNat := fun h => hne (UInt8.toNat_inj.mp h)
        exact iff_of_false (by omega) fun h => hne h.1.symm
      · rename_i heq
        rw [ih (Nat.le_of_succ_le_succ hle)]
        exact (and_iff_right (not_not.mp heq).symm).symm

section Tests

variable {name token : List UInt8} (rest : List UInt8)

theorem strncmp_token (hle : name.length ≤ token.length) :
    strncmp (token ++ rest) name name.length = 0 ↔ name <+: token := by
  rw [strncmp_eq_zero_iff (by rw [List.length_append]; omega)]
  exact ⟨fun h => List.prefix_of_prefix_length_le h (List.prefix_append _ _) hle,
    fun h => h.trans (List.prefix_append _ _)⟩

theorem isKeyed_eq :
    isKeyed name (token ++ rest) token.length = decide (name ++ [equalsSign] <+: token) := by
  rw [Bool.eq_iff_iff]
  simp only [isKeyed, Bool.and_eq_true, decide_eq_true_eq]
  constructor
  · rintro ⟨⟨hlen, hsign⟩, hcmp⟩
    obtain ⟨value, rfl⟩ := (strncmp_token rest (Nat.le_of_lt hlen)).mp hcmp
    rw [List.append_assoc, List.getElem?_append_right (Nat.le_refl _), Nat.sub_self] at hsign
    cases value with
    | nil => simp at hlen
    | cons c value =>
      cases hsign
      exact ⟨value, List.append_assoc _ _ _⟩
  · rintro ⟨value, rfl⟩
    have hlen : name.length < (name ++ [equalsSign] ++ value).length := by simp
    exact ⟨⟨hlen, by simp⟩, (strncmp_token rest (Nat.le_of_lt hlen)).mpr
      ⟨equalsSign :: value, by simp⟩⟩

theorem isArgument_eq :
    isArgument name (token ++ rest) token.length =
      decide (token = name ∨ name ++ [equalsSign] <+: token) := by
  rw [Bool.eq_iff_iff, isArgument, isKeyed_eq]
  simp only [Bool.or_eq_true, Bool.and_eq_true, decide_eq_true_eq]
  refine or_congr_left ⟨?_, ?_⟩
  · intro h
    exact (((strncmp_token rest (Nat.le_of_eq h.1.symm)).mp h.2).eq_of_length h.1.symm).symm
  · rintro rfl
    exact ⟨rfl, (strncmp_token rest (Nat.le_refl _)).mpr (List.prefix_refl _)⟩

end Tests

theorem first_token {p : List UInt8} (hne : p.dropWhile isSpace ≠ []) :
    ∃ token rest, p.dropWhile isSpace = token ++ rest ∧
      (p.dropWhile isSpace).takeWhile (!isSpace ·) = token ∧
      token ≠ [] ∧ tokens p = token :: tokens rest := by
  have hhead := List.head_dropWhile_not isSpace hne
  rw [← tokens_dropWhile p]
  generalize p.dropWhile isSpace = start at hne hhead
  have hsplit : start.takeWhile (!isSpace ·) ++ start.dropWhile (!isSpace ·) = start :=
    List.takeWhile_append_dropWhile
  have htoken : start.takeWhile (!isSpace ·) ≠ [] := by
    cases start with
    | nil => exact absurd rfl hne
    | cons c start =>
      rw [List.head_cons] at hhead
      rw [List.takeWhile_cons_of_pos (by rw [hhead]; rfl)]
      exact List.cons_ne_nil _ _
  refine ⟨_, _, hsplit.symm, rfl, htoken, ?_⟩
  conv_lhs => rw [← hsplit]
  apply tokens_append htoken
  · intro c hc
    exact (Bool.not_eq_true' _).mp (List.all_eq_true.mp List.all_takeWhile c hc)
  · intro c hc
    have hstop := List.head?_dropWhile_not (!isSpace ·) start
    rw [Option.mem_def.mp hc] at hstop
    exact (Bool.not_eq_false' _).mp hstop

theorem scanTokens_spec {test : List UInt8 → Nat → Bool} {f : List UInt8 → Bool}
    (h : ∀ token rest, test (token ++ rest) token.length = f token) (left : Nat) (p : List UInt8)
    (hp : p.length ≤ left) :
    (tokens p).find? f = (scanTokens test left p).map (fun found => found.1.take found.2) ∧
      ∀ found ∈ scanTokens test left p, found.1 <:+ p ∧ found.2 ≤ found.1.length := by
  induction left generalizing p with
  | zero =>
    rw [List.eq_nil_of_length_eq_zero (Nat.le_zero.mp hp)]
    exact ⟨rfl, fun _ hfound => by cases hfound⟩
  | succ left ih =>
    have hsuffix : p.dropWhile isSpace <:+ p := List.dropWhile_suffix _
    rw [scanTokens]
    dsimp only
    split
    · rename_i hnil
      rw [← tokens_dropWhile, hnil]
      exact ⟨rfl, fun _ hfound => by cases hfound⟩
    rename_i hne
    obtain ⟨token, rest, hstart, hword, htoken, hfirst⟩ := first_token hne
    have hlen := hsuffix.length_le
    have hpos := List.length_pos_iff.mpr htoken
    rw [hword, hfirst]
    rw [hstart] at hsuffix hlen ⊢
    rw [List.length_append] at hlen
    rw [h, List.drop_left]
    split
    · rename_i hf
      rw [List.find?_cons_of_pos hf, Option.map_some, List.take_left]
      refine ⟨rfl, ?_⟩
      rintro _ ⟨⟩
      exact ⟨hsuffix, (List.prefix_append _ _).length_le⟩
    · rename_i hf
      obtain ⟨hfind, hin⟩ := ih rest (by omega)
      rw [List.find?_cons_of_neg hf]
      exact ⟨hfind, fun found hfound =>
        ⟨((hin found hfound).1.trans (List.suffix_append _ _)).trans hsuffix, (hin found hfound).2⟩⟩

theorem copyBytes_text {s : List UInt8} (hs : 0 ∉ s) {destCapacity src : Nat} (left : Nat)
    (copyLen : Nat) (hle : src + copyLen + left ≤ s.length) :
    copyBytes (fun a => s[a]?) destCapacity src left copyLen =
      some (((s.drop (src + copyLen)).take left).take (destCapacity - 1 - copyLen)) := by
  induction left generalizing copyLen with
  | zero => rw [copyBytes, List.take_zero, List.take_nil]
  | succ left ih =>
    have hin : src + copyLen < s.length := by omega
    have hbyte : s[src + copyLen] ≠ 0 := fun h => hs (h ▸ List.getElem_mem hin)
    rw [copyBytes, List.getElem?_eq_getElem hin, List.drop_eq_getElem_cons hin, List.take_succ_cons]
    simp only [Option.bind_eq_bind, Option.bind_some, if_neg hbyte]
    split
    · rw [ih (copyLen + 1) (by omega), show destCapacity - 1 - copyLen =
        (destCapacity - 1 - (copyLen + 1)) + 1 by omega]
      rfl
    · rw [show destCapacity - 1 - copyLen = 0 by omega]
      rfl

section Arguments

variable {info : BootInformation} {name : List UInt8} (hname : name ≠ [])
include hname

theorem hasArgument_iff : info.hasArgument name = true ↔
    ∃ token ∈ tokens info.commandLine, token = name ∨ name ++ [equalsSign] <+: token := by
  have hfind :=
    (scanTokens_spec (fun _ => @isArgument_eq name _) _ info.commandLine (Nat.le_refl _)).1
  rw [BootInformation.hasArgument, if_neg hname, ← Option.isSome_map, ← hfind, List.find?_isSome]
  simp only [decide_eq_true_eq]

theorem getArgumentValue_eq (hline : 0 ∉ info.commandLine) (dest : List UInt8) {destCapacity : Nat}
    (hcapacity : 0 < destCapacity) :
    info.getArgumentValue name dest destCapacity =
      some (match (tokens info.commandLine).find? (name ++ [equalsSign] <+: ·) with
        | none => (false, [])
        | some token => (true, (token.drop (name.length + 1)).take (destCapacity - 1))) := by
  obtain ⟨hfind, hin⟩ :=
    scanTokens_spec (fun _ => @isKeyed_eq name _) _ info.commandLine (Nat.le_refl _)
  rw [BootInformation.getArgumentValue, if_neg (not_or.mpr ⟨hname, Nat.ne_of_gt hcapacity⟩), hfind]
  cases hscan : scanTokens (isKeyed name) info.commandLine.length info.commandLine with
  | none => rfl
  | some found =>
    obtain ⟨start, len⟩ := found
    obtain ⟨hsuffix, (hlen : len ≤ start.length)⟩ := hin _ hscan
    rw [hscan] at hfind
    have hprefix : name ++ [equalsSign] <+: start.take len :=
      of_decide_eq_true (List.find?_some hfind :)
    have hkeyed := hprefix.length_le
    rw [List.length_append, List.length_singleton, List.length_take] at hkeyed
    have hcopy := @copyBytes_text start (fun h => hline (hsuffix.mem h)) destCapacity
      (name.length + 1) (len - name.length - 1) 0 (by omega)
    simp only [safeCopyString, hcopy, Option.map_some, List.drop_take]
    rfl

/-- An argument is found exactly if a token is its name or starts with the name and an equals sign.
Its value is the rest of the first token of the second kind, cut to the size of the buffer. -/
theorem arguments_found (hline : 0 ∉ info.commandLine) (dest : List UInt8) {destCapacity : Nat}
    (hcapacity : 0 < destCapacity) :
    (info.hasArgument name = true ↔
      ∃ token ∈ tokens info.commandLine, token = name ∨ name ++ [equalsSign] <+: token) ∧
    ((∃ value, info.getArgumentValue name dest destCapacity = some (true, value)) ↔
      ∃ token ∈ tokens info.commandLine, name ++ [equalsSign] <+: token) ∧
    (∀ token, (tokens info.commandLine).find? (name ++ [equalsSign] <+: ·) = some token →
      info.getArgumentValue name dest destCapacity =
        some (true, (token.drop (name.length + 1)).take (destCapacity - 1))) ∧
    ((∃ value, info.getArgumentValue name dest destCapacity = some (true, value)) →
      info.hasArgument name = true) := by
  have hget : (∃ value, info.getArgumentValue name dest destCapacity = some (true, value)) ↔
      ∃ token ∈ tokens info.commandLine, name ++ [equalsSign] <+: token := by
    have hsome := @List.find?_isSome _ (tokens info.commandLine) (name ++ [equalsSign] <+: ·)
    simp only [decide_eq_true_eq] at hsome
    rw [getArgumentValue_eq hname hline dest hcapacity, ← hsome]
    cases (tokens info.commandLine).find? (name ++ [equalsSign] <+: ·) with
    | none => simp
    | some token => simp
  refine ⟨hasArgument_iff hname, hget, ?_, ?_⟩
  · intro token htoken
    rw [getArgumentValue_eq hname hline dest hcapacity, htoken]
  · intro h
    obtain ⟨token, hmem, hkeyed⟩ := hget.mp h
    exact (hasArgument_iff hname).mpr ⟨token, hmem, Or.inr hkeyed⟩

/-- `a k=v` -/
def sampleLine : BootInformation :=
  { BootInformation.zeroed with commandLine := [0x61, 0x20, 0x6B, 0x3D, 0x76] }

omit hname in
theorem sampleLine_arguments : sampleLine.hasArgument [0x6B] = true ∧
    sampleLine.getArgumentValue [0x6B] [] 8 = some (true, [0x76]) := by
  obtain ⟨_, hget, hvalue, himp⟩ :=
    @arguments_found sampleLine [0x6B] (by decide) (by decide) [] 8 (by decide)
  exact ⟨himp (hget.mpr ⟨[0x6B, 0x3D, 0x76], by decide, by decide⟩),
    hvalue [0x6B, 0x3D, 0x76] (by decide)⟩

end Arguments

end LlamaOS.Boot
