import LlamaOS.Shared.ByteBuffer
import Mathlib.Data.List.GetD

/-!
# Packed records

A record without gaps between its fields, each field a little-endian integer of a fixed width.
-/

namespace LlamaOS.PackedFields
open ByteBuffer

def total : List Nat → Nat
  | [] => 0
  | width :: widths => width + total widths

/-- The fields of the given widths from position `pos` on. -/
def unpack (buf : Buffer) : Nat → List Nat → List Nat
  | _, [] => []
  | pos, width :: widths => loadLe buf pos width :: unpack buf (pos + width) widths

def pack : List Nat → List Nat → List (BitVec 8)
  | width :: widths, value :: values => leBytes width value ++ pack widths values
  | _, _ => []

/-- Each value fits its field. -/
def Fits : List Nat → List Nat → Prop
  | [], [] => True
  | width :: widths, value :: values => value < 256 ^ width ∧ Fits widths values
  | _, _ => False

variable {widths : List Nat}

theorem pack_length {values : List Nat} (h : values.length = widths.length) :
    (pack widths values).length = total widths := by
  induction widths generalizing values with
  | nil => rfl
  | cons width widths ih =>
    cases values with
    | nil => cases h
    | cons value values =>
      rw [pack, List.length_append, leBytes_length, ih (Nat.succ.inj h), total]

theorem unpack_pack {buf : Buffer} {values : List Nat} {pos : Nat} (hfits : Fits widths values)
    (h : HasBytes buf pos (pack widths values)) : unpack buf pos widths = values := by
  induction widths generalizing values pos with
  | nil =>
    cases values with
    | nil => rfl
    | cons value values => exact hfits.elim
  | cons width widths ih =>
    cases values with
    | nil => exact hfits.elim
    | cons value values =>
      have hrest := h.right
      rw [leBytes_length] at hrest
      rw [unpack, h.left.loadLe, Nat.mod_eq_of_lt hfits.1, ih hfits.2 hrest]

theorem pack_unpack (buf : Buffer) (widths : List Nat) (pos : Nat) :
    pack widths (unpack buf pos widths) = slice buf pos (total widths) := by
  induction widths generalizing pos with
  | nil => rfl
  | cons width widths ih => rw [unpack, pack, leBytes_loadLe, ih, total, slice_append]

theorem unpack_congr {buf buf' : Buffer} {pos pos' : Nat}
    (h : ∀ i < total widths, buf (pos + i) = buf' (pos' + i)) :
    unpack buf pos widths = unpack buf' pos' widths := by
  induction widths generalizing pos pos' with
  | nil => rfl
  | cons width widths ih =>
    rw [total] at h
    have hfirst : loadLe buf pos width = loadLe buf' pos' width :=
      loadLe_congr_at fun i hi => h i (by omega)
    have hrest : unpack buf (pos + width) widths = unpack buf' (pos' + width) widths :=
        ih fun i hi => by
      rw [Nat.add_assoc, Nat.add_assoc]
      exact h (width + i) (by omega)
    rw [unpack, unpack, hfirst, hrest]

/-- A type of records: the fields fit, tell two records apart and are what `load` reads. -/
structure Record {α : Type} (size : Nat) (widths : List Nat) (fields : α → List Nat)
    (load : Buffer → Nat → α) :
    Prop where
  size : total widths = size
  injective : ∀ {x y : α}, fields x = fields y → x = y
  fits : ∀ x : α, Fits widths (fields x)
  loads : ∀ buf pos, fields (load buf pos) = unpack buf pos widths

namespace Record

variable {α : Type} {size : Nat} {fields : α → List Nat} {load : Buffer → Nat → α}
  {buf buf' : Buffer} {pos pos' : Nat}
variable (h : Record size widths fields load)
include h

theorem load_bytes {x : α} (hbytes : HasBytes buf pos (pack widths (fields x))) :
    load buf pos = x := by
  apply h.injective
  rw [h.loads]
  exact unpack_pack (h.fits x) hbytes

theorem load_congr (hsame : ∀ i < size, buf (pos + i) = buf' (pos' + i)) :
    load buf pos = load buf' pos' := by
  apply h.injective
  rw [h.loads, h.loads]
  exact unpack_congr (h.size.symm ▸ hsame)

end Record

end LlamaOS.PackedFields
