import LlamaOS.Memory.Vmm
import LlamaOS.Shared.ByteBuffer

/-!
# The linear framebuffer

`framebuffer.cpp`: validation of the boot metadata, the mapping plan, `init` over the virtual memory
manager, and the drawing operations. A drawing operation is the list of bytes it stores, in order,
at virtual addresses. Log messages are left out.
-/

namespace LlamaOS.Drivers
open Boot Memory ByteBuffer PageFlags

/-- `memory_layout.hpp` -/
abbrev directMapPhysLimit : Nat := 0x20000000
abbrev mmioWindowStart : Nat := 0xFFFFFFFFA0000000
abbrev mmioWindowSize : Nat := 0x20000000
abbrev mmioWindowMaxPages : Nat := mmioWindowSize / 4096

inductive PixelFormat where
  | unknown
  | rgb888
  | bgr888
  | argb8888
  | rgba8888
  | abgr8888
  | bgra8888
deriving DecidableEq

def framebufferTypeCode : FramebufferType → Nat
  | .indexed => 0
  | .directRgb => 1
  | .egaText => 2
  | .unknown => 255

/-- The result is `out_total_size`. -/
def validateMetadata (addr pitch width height bpp type : Nat) : Option Nat :=
  if addr = 0 then none
  else if width = 0 ∨ width > 7680 then none
  else if height = 0 ∨ height > 4320 then none
  else if bpp ≠ 16 ∧ bpp ≠ 24 ∧ bpp ≠ 32 then none
  else if type ≠ 1 then none
  else
    let minPitch := (width * bpp + 7) / 8
    if pitch < minPitch then none
    else if pitch > 0 ∧ height > uint64Max / pitch then none
    else
      let total := pitch * height % 2 ^ 64
      if uint64Max - addr < total then none else some total

def detectFormat (info : FramebufferInfo) : PixelFormat :=
  if info.bpp = 32 then
    if info.red.position = 16 ∧ info.blue.position = 0 then .bgra8888
    else if info.red.position = 0 ∧ info.blue.position = 16 then .rgba8888
    else .argb8888
  else if info.bpp = 24 then
    if info.red.position = 16 ∧ info.blue.position = 0 then .bgr888 else .rgb888
  else .unknown

structure MappingPlan where
  alignedPaddr : Nat
  pageOffset : Nat
  totalMappedBytes : Nat
  numPages : Nat
  baseVaddr : Nat
  framebufferVaddr : Nat
  usesDirectMap : Bool
deriving DecidableEq

/-- `none` is a plan that is not valid. -/
def calculateMappingPlan (paddr totalSize : Nat) : Option MappingPlan :=
  if paddr = 0 ∨ totalSize = 0 then none
  else if uint64Max - paddr < totalSize then none
  else
    let alignedPaddr := paddr &&& (2 ^ 64 - 4096)
    let pageOffset := paddr &&& 0xFFF
    if paddr < directMapPhysLimit ∧ add64 paddr totalSize ≤ directMapPhysLimit then
      let totalMappedBytes := add64 pageOffset totalSize
      some {
        alignedPaddr, pageOffset, totalMappedBytes
        numPages := add64 totalMappedBytes 4095 / 4096
        baseVaddr := physToVirt alignedPaddr
        framebufferVaddr := physToVirt paddr
        usesDirectMap := true }
    else if uint64Max - pageOffset < totalSize then none
    else
      let totalMappedBytes := add64 pageOffset totalSize
      if totalMappedBytes > mmioWindowSize then none
      else if uint64Max - mmioWindowStart < totalMappedBytes then none
      else if uint64Max - totalMappedBytes < 4095 then none
      else
        let numPages := add64 totalMappedBytes 4095 / 4096
        if numPages > mmioWindowMaxPages then none
        else some {
          alignedPaddr, pageOffset, totalMappedBytes, numPages
          baseVaddr := mmioWindowStart
          framebufferVaddr := add64 mmioWindowStart pageOffset
          usesDirectMap := false }

structure Framebuffer where
  available : Bool := false
  paddr : Nat := 0
  vaddr : Nat := 0
  width : Nat := 0
  height : Nat := 0
  pitch : Nat := 0
  bpp : Nat := 0
  totalSize : Nat := 0
  format : PixelFormat := .unknown
deriving DecidableEq

namespace Framebuffer
open VirtualMemoryManager

def mappingFlags : PageFlags := present ||| writable ||| noExecute

def unmapPages (baseVaddr count : Nat) (m : Machine) : Option Machine :=
  (List.range count).foldlM (fun m j => (unmapPage m (add64 baseVaddr (j * 4096))).map Prod.snd) m

def mapPages (plan : MappingPlan) : Nat → Nat → Machine → Option (Bool × Machine)
  | 0, _, m => some (true, m)
  | left + 1, i, m => do
    let (status, m) ← mapPage m (add64 plan.baseVaddr (i * 4096))
      (add64 plan.alignedPaddr (i * 4096)) mappingFlags
    if status ≠ .success then
      let m ← unmapPages plan.baseVaddr i m
      return (false, m)
    mapPages plan left (i + 1) m

/-- The outer `none` is a fault on the way to a page table. -/
def init (info : FramebufferInfo) (m : Machine) : Option (Bool × Framebuffer × Machine) :=
  if !info.valid then some (false, {}, m)
  else
    match validateMetadata info.address info.pitch info.width info.height info.bpp
      (framebufferTypeCode info.type) with
    | none => some (false, {}, m)
    | some totalSize =>
      match calculateMappingPlan info.address totalSize with
      | none => some (false, { totalSize }, m)
      | some plan =>
        let fb : Framebuffer := {
          paddr := info.address, width := info.width, height := info.height, pitch := info.pitch
          bpp := info.bpp, totalSize, format := detectFormat info }
        if plan.usesDirectMap then
          some (true, { fb with vaddr := plan.framebufferVaddr, available := true }, m)
        else
          match mapPages plan plan.numPages 0 m with
          | none => none
          | some (false, m) => some (false, fb, m)
          | some (true, m) =>
            some (true, { fb with vaddr := plan.framebufferVaddr, available := true }, m)

/-- The result is `out_offset`. -/
def isPixelInBounds (x y bpp pitch width height totalSize : Nat) : Option Nat :=
  if bpp ≠ 16 ∧ bpp ≠ 24 ∧ bpp ≠ 32 then none
  else if x ≥ width ∨ y ≥ height then none
  else
    let bppBytes := (bpp + 7) / 8
    let rowOffset := y * pitch % 2 ^ 64
    let colOffset := x * bppBytes % 2 ^ 64
    if uint64Max - rowOffset < colOffset then none
    else
      let pixelOffset := add64 rowOffset colOffset
      if uint64Max - pixelOffset < bppBytes then none
      else if add64 pixelOffset bppBytes > totalSize then none
      else some pixelOffset

/-- The bytes of a pixel of the given depth. -/
def pixelBytes (bpp color : Nat) : List (BitVec 8) :=
  if bpp = 32 then leBytes 4 color
  else if bpp = 24 then leBytes 3 color
  else if bpp = 16 then
    let r := (color >>> 19) &&& 0x1F
    let g := (color >>> 10) &&& 0x3F
    let b := (color >>> 3) &&& 0x1F
    leBytes 2 ((r <<< 11) ||| (g <<< 5) ||| b)
  else []

def putPixel (fb : Framebuffer) (x y color : Nat) : List (Nat × BitVec 8) :=
  if !fb.available then []
  else
    match isPixelInBounds x y fb.bpp fb.pitch fb.width fb.height fb.totalSize with
    | none => []
    | some pixelOffset =>
      let dst := add64 fb.vaddr pixelOffset
      (pixelBytes fb.bpp color).zipIdx.map fun (b, i) => (add64 dst i, b)

def fillRect (fb : Framebuffer) (x y w h color : Nat) : List (Nat × BitVec 8) :=
  if !fb.available ∨ x ≥ fb.width ∨ y ≥ fb.height ∨ w = 0 ∨ h = 0 then []
  else
    let w := if w > fb.width - x then fb.width - x else w
    let h := if h > fb.height - y then fb.height - y else h
    -- the ends of both loops are 32 bits wide
    (List.range ((y + h) % 2 ^ 32 - y)).flatMap fun cy =>
      (List.range ((x + w) % 2 ^ 32 - x)).flatMap fun cx => fb.putPixel (x + cx) (y + cy) color

def clear (fb : Framebuffer) (color : Nat) : List (Nat × BitVec 8) :=
  if !fb.available then [] else fb.fillRect 0 0 fb.width fb.height color

end Framebuffer

end LlamaOS.Drivers
