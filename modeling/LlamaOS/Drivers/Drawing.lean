import LlamaOS.Drivers.FramebufferMapping
import LlamaOS.Shared.Raster

/-!
# Drawing stays on the screen

Pixels are cells of a raster with rows `pitch` bytes apart. The checks of `is_pixel_in_bounds` let
exactly the pixels of the screen through, and `fill_rect` paints exactly the part of its rectangle
that lies on the screen.
-/

namespace LlamaOS.Drivers
open Boot Memory Memory.System ByteBuffer Raster Framebuffer

def pixelSize (bpp : Nat) : Nat := (bpp + 7) / 8

theorem pixelBytes_length {bpp : Nat} (hbpp : bpp = 16 ∨ bpp = 24 ∨ bpp = 32) (color : Nat) :
    (pixelBytes bpp color).length = pixelSize bpp := by
  rcases hbpp with rfl | rfl | rfl <;> rfl

/-- The physical address of byte `i` of a pixel. -/
def pixelByte (info : FramebufferInfo) (x y i : Nat) : Nat :=
  info.address + cell info.pitch (pixelSize info.bpp) x y + i

def OnScreen (info : FramebufferInfo) (x y : Nat) : Prop := x < info.width ∧ y < info.height

instance (info : FramebufferInfo) (x y : Nat) : Decidable (OnScreen info x y) :=
  inferInstanceAs (Decidable (_ ∧ _))

/-- Pixels of the rectangle that lie on the screen. -/
def InRect (info : FramebufferInfo) (x y w h px py : Nat) : Prop :=
  OnScreen info px py ∧ x ≤ px ∧ px < x + w ∧ y ≤ py ∧ py < y + h

/-- Stores go where the active tables lead; a store without a translation faults. -/
def draw (s : System) (phys : Nat → BitVec 8) (writes : List (Nat × BitVec 8)) :
    Option (Nat → BitVec 8) :=
  writes.foldlM (fun phys w =>
    ((walk s.ram s.machine.activeRoot w.1).map Prod.fst).map fun a =>
      Function.update phys a w.2) phys

theorem draw_eq {s : System} {target : Nat → Nat} (writes : List (Nat × BitVec 8)) :
    ∀ {phys : Nat → BitVec 8},
      (∀ w ∈ writes, (walk s.ram s.machine.activeRoot w.1).map Prod.fst = some (target w.1)) →
      draw s phys writes = some (paint phys (writes.map fun w => (target w.1, w.2))) := by
  induction writes with
  | nil => exact fun _ => rfl
  | cons w writes ih =>
    intro phys h
    unfold draw
    rw [List.foldlM_cons, h w List.mem_cons_self]
    exact ih fun w' hw' => h w' (List.mem_cons_of_mem _ hw')

namespace Mapped
variable {info : FramebufferInfo} {fb : Framebuffer} {s : System}

section

variable (h : Mapped info fb s)
include h

theorem rows : info.width * pixelSize info.bpp ≤ info.pitch := h.accepted.row

theorem cell_below {x y : Nat} (hpixel : OnScreen info x y) :
    cell info.pitch (pixelSize info.bpp) x y + pixelSize info.bpp ≤ fb.totalSize := by
  rw [h.accepted.total]
  exact cell_inside h.rows hpixel.1 hpixel.2

theorem isPixelInBounds_eq (x y : Nat) :
    isPixelInBounds x y fb.bpp fb.pitch fb.width fb.height fb.totalSize =
      if OnScreen info x y then some (cell info.pitch (pixelSize info.bpp) x y) else none := by
  obtain ⟨hwidth, hheight, hpitch, hbpp⟩ := h.geometry
  rw [hwidth, hheight, hpitch, hbpp]
  have hdepth := h.accepted.bpp
  have hinside := h.inside
  unfold isPixelInBounds
  rw [if_neg (by omega)]
  by_cases hpixel : OnScreen info x y
  · have hcell := h.cell_below hpixel
    have hsize : (info.bpp + 7) / 8 = pixelSize info.bpp := rfl
    unfold cell at hcell
    have hrow : y * info.pitch % 2 ^ 64 = y * info.pitch := Nat.mod_eq_of_lt (by omega)
    have hcolumn : x * pixelSize info.bpp % 2 ^ 64 = x * pixelSize info.bpp :=
      Nat.mod_eq_of_lt (by omega)
    have hsum :
        add64 (y * info.pitch) (x * pixelSize info.bpp) = y * info.pitch + x * pixelSize info.bpp :=
      add64_eq (by omega)
    have hend : add64 (y * info.pitch + x * pixelSize info.bpp) (pixelSize info.bpp) =
        y * info.pitch + x * pixelSize info.bpp + pixelSize info.bpp := add64_eq (by omega)
    rw [if_neg (by have hx := hpixel.1; have hy := hpixel.2; omega)]
    simp only [hsize, hrow, hcolumn, hsum, hend, uint64Max]
    rw [if_neg (by omega), if_neg (by omega), if_neg (by omega), if_pos hpixel]
    rfl
  · have hout : x ≥ info.width ∨ y ≥ info.height := by
      unfold OnScreen at hpixel
      omega
    rw [if_pos hout, if_neg hpixel]

/-- A pixel of the screen is stored byte by byte; other coordinates store nothing. -/
theorem putPixel_eq (x y color : Nat) : fb.putPixel x y color =
    if OnScreen info x y then (pixelBytes info.bpp color).zipIdx.map fun (b, i) =>
      (fb.vaddr + cell info.pitch (pixelSize info.bpp) x y + i, b) else [] := by
  unfold putPixel
  rw [h.available, h.isPixelInBounds_eq]
  by_cases hpixel : OnScreen info x y
  · have hcell := h.cell_below hpixel
    have hinside := h.inside
    rw [if_pos hpixel, if_pos hpixel]
    rw [h.geometry.2.2.2, if_neg (by decide)]
    refine List.map_congr_left fun bi hbi => ?_
    obtain ⟨b, i⟩ := bi
    have hi := (List.mem_zipIdx' hbi).1
    rw [pixelBytes_length h.accepted.bpp] at hi
    dsimp only
    rw [add64_eq (b := cell _ _ _ _) (by omega), add64_eq (by omega)]
  · rw [if_neg hpixel, if_neg hpixel]
    rfl

theorem mem_putPixel {x y color : Nat} {w : Nat × BitVec 8} : w ∈ fb.putPixel x y color ↔
    OnScreen info x y ∧ ∃ i < pixelSize info.bpp,
      w = (fb.vaddr + cell info.pitch (pixelSize info.bpp) x y + i,
        (pixelBytes info.bpp color).getD i 0) := by
  rw [h.putPixel_eq]
  by_cases hpixel : OnScreen info x y
  · rw [if_pos hpixel, List.mem_map]
    have hlength := pixelBytes_length h.accepted.bpp color
    constructor
    · rintro ⟨⟨b, i⟩, hbi, rfl⟩
      obtain ⟨hi, hb⟩ := List.mem_zipIdx' hbi
      refine ⟨hpixel, i, hlength ▸ hi, ?_⟩
      rw [List.getD_eq_getElem _ _ hi, hb]
    · rintro ⟨_, i, hi, rfl⟩
      rw [← hlength] at hi
      refine ⟨((pixelBytes info.bpp color).getD i 0, i), ?_, rfl⟩
      rw [List.mem_zipIdx_iff_getElem?, List.getD_eq_getElem _ _ hi]
      exact List.getElem?_eq_getElem hi
  · rw [if_neg hpixel]
    exact ⟨fun hw => absurd hw List.not_mem_nil, fun hw => absurd hw.1 hpixel⟩

/-- The two loops of `fill_rect` visit the pixels of the clipped rectangle. -/
theorem mem_fillRect {x y w h' color : Nat} {b : Nat × BitVec 8} :
    b ∈ fb.fillRect x y w h' color ↔ ∃ px py, InRect info x y w h' px py ∧
      b ∈ fb.putPixel px py color := by
  obtain ⟨hwidth, hheight, _, _⟩ := h.geometry
  have hw := h.accepted.width
  have hh := h.accepted.height
  unfold fillRect InRect OnScreen
  rw [h.available, hwidth, hheight]
  by_cases hempty : x ≥ info.width ∨ y ≥ info.height ∨ w = 0 ∨ h' = 0
  · rw [if_pos (.inr hempty)]
    refine ⟨fun hb => absurd hb List.not_mem_nil, ?_⟩
    rintro ⟨px, py, hin, _⟩
    omega
  rw [if_neg (by rintro (hno | hno); exacts [absurd hno (by decide), hempty hno])]
  dsimp only
  have hcut : ∀ {n limit start : Nat}, start < limit → limit ≤ 7680 →
      (start + if n > limit - start then limit - start else n) % 2 ^ 32 - start =
        min n (limit - start) := by
    intro n limit start hlt hle
    split <;> omega
  rw [hcut (by omega) (by omega), hcut (by omega) (by omega)]
  simp only [List.mem_flatMap, List.mem_range]
  constructor
  · rintro ⟨cy, hcy, cx, hcx, hb⟩
    exact ⟨x + cx, y + cy, ⟨⟨by omega, by omega⟩, by omega, by omega, by omega, by omega⟩, hb⟩
  · rintro ⟨px, py, ⟨⟨hx, hy⟩, hlo, hhi, hlo', hhi'⟩, hb⟩
    refine ⟨py - y, by omega, px - x, by omega, ?_⟩
    rwa [show x + (px - x) = px by omega, show y + (py - y) = py by omega]

theorem seen_pixel {x y i : Nat} (hpixel : OnScreen info x y) (hi : i < pixelSize info.bpp) :
    (walk s.ram s.machine.activeRoot (fb.vaddr + cell info.pitch (pixelSize info.bpp) x y + i)).map
      Prod.fst = some (pixelByte info x y i) := by
  have hcell := h.cell_below hpixel
  have hactive := (inv_reachable h.standing.reachable).active
  rw [Nat.add_assoc, h.seen _ (by omega) _ hactive, ← Nat.add_assoc]
  rfl

theorem pixelByte_inside {x y i : Nat} (hpixel : OnScreen info x y) (hi : i < pixelSize info.bpp) :
    info.address ≤ pixelByte info x y i ∧
      pixelByte info x y i < info.address + info.pitch * info.height := by
  have hcell := h.cell_below hpixel
  rw [h.accepted.total] at hcell
  unfold pixelByte
  omega

theorem pixelByte_unique {x y i x' y' i' : Nat} (hpixel : OnScreen info x y)
    (hpixel' : OnScreen info x' y') (hi : i < pixelSize info.bpp) (hi' : i' < pixelSize info.bpp)
    (heq : pixelByte info x y i = pixelByte info x' y' i') : x = x' ∧ y = y' ∧ i = i' := by
  unfold pixelByte at heq
  exact cell_unique h.rows hpixel.1 hpixel'.1 hi hi' (by omega)

/-- After `fill_rect`, the bytes of the rectangle's pixels hold the colour and all others are as
before. -/
theorem draw_fillRect (phys : Nat → BitVec 8) (x y w h' color : Nat) :
    ∃ phys', draw s phys (fb.fillRect x y w h' color) = some phys' ∧
      (∀ px py i, InRect info x y w h' px py → i < pixelSize info.bpp →
        phys' (pixelByte info px py i) = (pixelBytes info.bpp color).getD i 0) ∧
      ∀ a, (∀ px py i, InRect info x y w h' px py → i < pixelSize info.bpp →
        a ≠ pixelByte info px py i) → phys' a = phys a := by
  have htarget : ∀ {px py i : Nat}, fb.vaddr + cell info.pitch (pixelSize info.bpp) px py +
      i - fb.vaddr + info.address = pixelByte info px py i := by
    intro px py i
    unfold pixelByte
    omega
  have hwrites : ∀ b ∈ fb.fillRect x y w h' color, ∃ px py i, InRect info x y w h' px py ∧
      i < pixelSize info.bpp ∧
      b = (fb.vaddr + cell info.pitch (pixelSize info.bpp) px py + i,
        (pixelBytes info.bpp color).getD i 0) := by
    intro b hb
    obtain ⟨px, py, hin, hput⟩ := h.mem_fillRect.mp hb
    obtain ⟨_, i, hi, rfl⟩ := h.mem_putPixel.mp hput
    exact ⟨px, py, i, hin, hi, rfl⟩
  have hdraw := @draw_eq s (fun v => v - fb.vaddr + info.address) (fb.fillRect x y w h' color) phys
      fun b hb => by
    obtain ⟨px, py, i, hin, hi, rfl⟩ := hwrites b hb
    rw [h.seen_pixel hin.1 hi, htarget]
  refine ⟨_, hdraw, fun px py i hin hi => ?_, fun a hout => paint_outside fun b hb => ?_⟩
  · have hmem : (fb.vaddr + cell info.pitch (pixelSize info.bpp) px py + i,
        (pixelBytes info.bpp color).getD i 0) ∈ fb.fillRect x y w h' color :=
      h.mem_fillRect.mpr ⟨px, py, hin, h.mem_putPixel.mpr ⟨hin.1, i, hi, rfl⟩⟩
    refine paint_inside (fun b hb hat => ?_) ⟨_, List.mem_map_of_mem hmem, htarget⟩
    obtain ⟨b', hb', rfl⟩ := List.mem_map.mp hb
    obtain ⟨px', py', i', hin', hi', rfl⟩ := hwrites b' hb'
    rw [htarget] at hat
    obtain ⟨rfl, rfl, rfl⟩ := h.pixelByte_unique hin'.1 hin.1 hi' hi hat
    rfl
  · obtain ⟨b', hb', rfl⟩ := List.mem_map.mp hb
    obtain ⟨px, py, i, hin, hi, rfl⟩ := hwrites b' hb'
    rw [htarget]
    exact (hout px py i hin hi).symm

end

end Mapped

/-- A stored byte is translated to a byte of the framebuffer. -/
def InFramebuffer (info : FramebufferInfo) (s : System) (vaddr : Nat) : Prop :=
  ∃ a, (walk s.ram s.machine.activeRoot vaddr).map Prod.fst = some a ∧
    info.address ≤ a ∧ a < info.address + info.pitch * info.height

/-- After a successful `init`, drawing stores only into the framebuffer, every pixel of the screen
can be drawn, different pixels share no byte, and `fill_rect` changes exactly the pixels of its
rectangle that lie on the screen. -/
theorem drawing_correct {info : FramebufferInfo} {fb : Framebuffer} {s : System} {m' : Machine}
    (hs : Standing s) (hpitch : info.pitch < 2 ^ 32)
    (hfits : info.address + info.pitch * info.height < 2 ^ 52)
    (hinit : Framebuffer.init info s.machine = some (true, fb, m')) :
    (∀ x y color, ∀ b ∈ fb.putPixel x y color, InFramebuffer info (s.withMachine m') b.1) ∧
    (∀ x y w h color, ∀ b ∈ fb.fillRect x y w h color, InFramebuffer info (s.withMachine m') b.1) ∧
    (∀ x y color, OnScreen info x y → ∀ i < pixelSize info.bpp,
      (fb.vaddr + cell info.pitch (pixelSize info.bpp) x y + i,
        (Framebuffer.pixelBytes info.bpp color).getD i 0) ∈ fb.putPixel x y color) ∧
    (∀ x y color x' y' color', (x, y) ≠ (x', y') → ∀ b ∈ fb.putPixel x y color,
      ∀ b' ∈ fb.putPixel x' y' color',
      (walk m'.ram m'.activeRoot b.1).map Prod.fst ≠
        (walk m'.ram m'.activeRoot b'.1).map Prod.fst) ∧
    ∀ phys x y w h color, ∃ phys', draw (s.withMachine m') phys (fb.fillRect x y w h color) =
      some phys' ∧ (∀ px py i, InRect info x y w h px py → i < pixelSize info.bpp →
        phys' (pixelByte info px py i) = (Framebuffer.pixelBytes info.bpp color).getD i 0) ∧
      ∀ a, (∀ px py i, InRect info x y w h px py → i < pixelSize info.bpp →
        a ≠ pixelByte info px py i) → phys' a = phys a := by
  have hm := init_mapped hs hpitch hfits hinit
  have hput : ∀ x y color, ∀ b ∈ fb.putPixel x y color,
      InFramebuffer info (s.withMachine m') b.1 := by
    intro x y color b hb
    obtain ⟨hpixel, i, hi, rfl⟩ := hm.mem_putPixel.mp hb
    exact ⟨_, hm.seen_pixel hpixel hi, hm.pixelByte_inside hpixel hi⟩
  refine ⟨hput, fun x y w h color b hb => ?_, fun x y color hpixel i hi => ?_, ?_,
    fun phys => hm.draw_fillRect phys⟩
  · obtain ⟨px, py, _, hb'⟩ := hm.mem_fillRect.mp hb
    exact hput px py color b hb'
  · exact hm.mem_putPixel.mpr ⟨hpixel, i, hi, rfl⟩
  · intro x y color x' y' color' hne b hb b' hb' heq
    obtain ⟨hpixel, i, hi, rfl⟩ := hm.mem_putPixel.mp hb
    obtain ⟨hpixel', i', hi', rfl⟩ := hm.mem_putPixel.mp hb'
    have hbyte := hm.seen_pixel hpixel hi
    have hbyte' := hm.seen_pixel hpixel' hi'
    have hsame := hm.pixelByte_unique hpixel hpixel' hi hi'
      (Option.some.inj (hbyte.symm.trans (heq.trans hbyte')))
    exact hne (by rw [hsame.1, hsame.2.1])

/-- A small screen above 2 GiB, not aligned to a page. -/
def sampleScreen : FramebufferInfo where
  valid := true
  address := 0xFD000800
  pitch := 16
  width := 3
  height := 2
  bpp := 32
  type := .directRgb
  red := ⟨16, 8⟩
  green := ⟨8, 8⟩
  blue := ⟨0, 8⟩
  totalSizeBytes := 32

theorem sampleScreen_drawn :
    ∃ fb m', Framebuffer.init sampleScreen sampleKernel = some (true, fb, m') ∧
    ∀ x y color, ∀ b ∈ fb.putPixel x y color,
      InFramebuffer sampleScreen ((boot sampleKernel).withMachine m') b.1 := by
  have hok : (init sampleScreen sampleKernel).map Prod.fst = some true := by decide +kernel
  obtain ⟨⟨ok, fb, m'⟩, hinit, rfl⟩ := Option.map_eq_some_iff.mp hok
  have hs : Standing (boot sampleKernel) := .booted (by decide +kernel) sampleKernel_init
  exact ⟨fb, m', hinit, (drawing_correct hs (by decide) (by decide) hinit).1⟩

end LlamaOS.Drivers
