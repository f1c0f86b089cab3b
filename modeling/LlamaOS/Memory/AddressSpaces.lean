import LlamaOS.Memory.DirectMap

/-!
# Address spaces over one frame allocator

The machine with what the kernel knows about it: the live user roots, the frames it
took for user pages, and for each space the top-level slots that were present in the
kernel root when the space was created. The invariant says that the tables of all
roots form a separated forest whose lower halves are private.
-/

namespace LlamaOS.Memory
open RadixForest VirtualAddress PageTableEntry VirtualMemoryManager

structure System where
  machine : Machine
  kernelRoot : Nat
  spaces : Finset Nat
  held : Finset Nat
  inherited : Nat → Fin 512 → Bool

inductive VmOp where
  | create
  | destroy (root : Nat)
  | map (root vaddr paddr : Nat) (flags : PageFlags)
  | unmap (vaddr : Nat)
  | activate (root : Nat)
  | takeFrame
  | takeFrames (count : Nat)
  | freeFrame (paddr : Nat)
  | setForceAllocFailure (fail : Bool)
  | store (paddr : Nat) (i : Fin 512) (e : PageTableEntry)

/-- Top-level indices of the kernel half, which `create_user_address_space` copies. -/
def Upper (i : Fin 512) : Prop := 256 ≤ i.val

instance (i : Fin 512) : Decidable (Upper i) := inferInstanceAs (Decidable (256 ≤ i.val))

def Lower (p : List (Fin 512)) : Prop := ∃ i q, p = i :: q ∧ ¬ Upper i

namespace System

abbrev ram (s : System) : Ram := s.machine.ram

def withMachine (s : System) (m : Machine) : System := { s with machine := m }

/-- A new space inherits the slots that are present in the kernel root. -/
def withSpace (s : System) (root : Nat) (m : Machine) : System :=
  { s with
    machine := m
    spaces := insert root s.spaces
    inherited := fun r i => if r = root then (s.ram s.kernelRoot i).isPresent else s.inherited r i }

def withoutSpace (s : System) (root : Nat) (m : Machine) : System :=
  { s with machine := m, spaces := s.spaces.erase root }

def IsRoot (s : System) (r : Nat) : Prop := r = s.kernelRoot ∨ r ∈ s.spaces

/-- Positions of tables, and of the user pages that `destroy_user_address_space` frees. -/
def Tracked (s : System) (r : Nat) (p : List (Fin 512)) : Prop :=
  (s.IsRoot r ∧ p.length ≤ 3) ∨ (r ∈ s.spaces ∧ p.length = 4 ∧ Lower p)

def Occupied (s : System) (r : Nat) (p : List (Fin 512)) (l : Nat) : Prop :=
  Occupies next s.Tracked s.ram r p l

/-- A mapping in the user half of a user space. -/
def IsUserPage (s : System) (root vaddr : Nat) : Prop := root ∈ s.spaces ∧ ¬ Upper (pml4Index vaddr)

/-- One operation. Frames for user pages are taken from the allocator for that mapping, and a space
is not destroyed while its root is active. Only `activate` changes the active root, which is the
kernel's after `init`. -/
inductive Step : System → VmOp → System → Prop where
  | created {s : System} {root : Nat} {m : Machine}
      (h : createUserAddressSpace s.machine = some (root, m)) (hroot : root ≠ 0) :
      Step s .create (s.withSpace root m)
  | createFailed {s : System} {m : Machine} (h : createUserAddressSpace s.machine = some (0, m)) :
      Step s .create (s.withMachine m)
  | destroyed {s : System} {root : Nat} {m : Machine} (hroot : root ∈ s.spaces)
      (hidle : root ≠ s.machine.activeRoot) (h : destroyUserAddressSpace s.machine root = some m) :
      Step s (.destroy root) (s.withoutSpace root m)
  | mappedUser {s : System} {root vaddr paddr : Nat} {flags : PageFlags} {m : Machine}
      (huser : s.IsUserPage root vaddr) (hheld : paddr ∈ s.held)
      (h : mapPageInTable s.machine root vaddr paddr flags = some (.success, m)) :
      Step s (.map root vaddr paddr flags) { s with machine := m, held := s.held.erase paddr }
  | mappedOther {s : System} {root vaddr paddr : Nat} {flags : PageFlags} {m : Machine}
      (hroot : s.IsRoot root) (hother : ¬ s.IsUserPage root vaddr)
      (h : mapPageInTable s.machine root vaddr paddr flags = some (.success, m)) :
      Step s (.map root vaddr paddr flags) (s.withMachine m)
  | mapFailed {s : System} {root vaddr paddr : Nat} {flags : PageFlags} {status : VmmStatus}
      {m : Machine} (hroot : s.IsRoot root) (hstatus : status ≠ .success)
      (h : mapPageInTable s.machine root vaddr paddr flags = some (status, m)) :
      Step s (.map root vaddr paddr flags) (s.withMachine m)
  | unmapped {s : System} {vaddr : Nat} {status : VmmStatus} {m : Machine}
      (h : unmapPage s.machine vaddr = some (status, m)) : Step s (.unmap vaddr) (s.withMachine m)
  | activated {s : System} {root : Nat} (hroot : s.IsRoot root) :
      Step s (.activate root) (s.withMachine { s.machine with cr3 := root })
  | frameTaken {s : System} {paddr : Nat} {m : Machine} (h : s.machine.allocPage = some (paddr, m))
      (hpaddr : paddr ≠ 0) :
      Step s .takeFrame { s with machine := m, held := insert paddr s.held }
  | takeFailed {s : System} {m : Machine} (h : s.machine.allocPage = some (0, m)) :
      Step s .takeFrame (s.withMachine m)
  | framesTaken {s : System} {count paddr : Nat} {m : Machine}
      (h : s.machine.allocPages count = some (paddr, m)) (hpaddr : paddr ≠ 0) :
      Step s (.takeFrames count)
        { s with
          machine := m
          held := s.held ∪ (Finset.range count).image fun i => paddr + i * 4096 }
  | takeFramesFailed {s : System} {count : Nat} {m : Machine}
      (h : s.machine.allocPages count = some (0, m)) :
      Step s (.takeFrames count) (s.withMachine m)
  | failureForced {s : System} {fail : Bool} :
      Step s (.setForceAllocFailure fail) (s.withMachine (s.machine.setForceAllocFailure fail))
  | frameFreed {s : System} {paddr : Nat} (hheld : paddr ∈ s.held) :
      Step s (.freeFrame paddr)
        { s with machine := s.machine.freePage paddr, held := s.held.erase paddr }
  | stored {s : System} {paddr : Nat} {i : Fin 512} {e : PageTableEntry}
      (hpage : paddr ∈ s.held ∨ ∃ r p, p.length = 4 ∧ s.Occupied r p paddr) :
      Step s (.store paddr i e) (s.withMachine (s.machine.write paddr i e))

def boot (m : Machine) : System := ⟨m, m.vmm.rootPml4Paddr, ∅, ∅, fun _ _ => false⟩

/-- States after a successful `init` on a machine with at most `2 ^ 52` bytes of memory. -/
inductive Reachable : System → Prop where
  | booted {m m' : Machine} {nxe : Bool} {sec : Sections} (hsize : m.pmm.bitmap.size ≤ 2 ^ 40)
      (h : VirtualMemoryManager.init m nxe sec = some (true, m')) :
      Reachable (boot m')
  | step {s s' : System} {op : VmOp} (hs : Reachable s) (h : Step s op s') : Reachable s'

/-- A frame the allocator has handed out and an entry can hold. -/
structure Owned (m : Machine) (a : Nat) : Prop where
  nonnull : a ≠ 0
  aligned : a % 4096 = 0
  below : a < 2 ^ 52
  taken : m.taken a = true

structure Inv (s : System) : Prop where
  vmm : s.machine.vmm = ⟨s.kernelRoot, true⟩
  active : s.IsRoot s.machine.activeRoot
  kernel : s.kernelRoot ∉ s.spaces
  size : s.machine.pmm.bitmap.size ≤ 2 ^ 40
  separated : Separated next s.Tracked Upper s.ram
  owned : ∀ {r p l}, s.Occupied r p l → Owned s.machine l
  heldOwned : ∀ {a}, a ∈ s.held → Owned s.machine a
  heldFree : ∀ {a}, a ∈ s.held → ∀ r p, ¬ s.Occupied r p a
  copied : ∀ {u i}, u ∈ s.spaces → Upper i → s.inherited u i = true →
    ∃ l, (s.ram u i).next 0 = some l ∧ (s.ram s.kernelRoot i).next 0 = some l
  top : ∃ l, (s.ram s.kernelRoot 511).next 0 = some l
  topInherited : ∀ {u}, u ∈ s.spaces → s.inherited u 511 = true

theorem prefixClosed (s : System) : PrefixClosed s.Tracked := by
  intro r p q h
  rcases h with ⟨hr, hlen⟩ | ⟨hr, hlen, i, t, hpq, hi⟩
  · rw [List.length_append] at hlen
    exact Or.inl ⟨hr, by omega⟩
  by_cases hp : p.length ≤ 3
  · exact Or.inl ⟨Or.inr hr, hp⟩
  have hq : q = [] := List.length_eq_zero_iff.mp (by rw [List.length_append] at hlen; omega)
  subst hq
  rw [List.append_nil] at hlen hpq
  exact Or.inr ⟨hr, hlen, i, t, hpq, hi⟩

variable {s : System} {r : Nat} {p : List (Fin 512)}

theorem tracked_of_root (hr : s.IsRoot r) (hp : p.length ≤ 3) : s.Tracked r p := Or.inl ⟨hr, hp⟩

theorem isRoot_of_tracked (h : s.Tracked r p) : s.IsRoot r := by
  rcases h with ⟨hr, _⟩ | ⟨hr, _, _⟩
  · exact hr
  · exact Or.inr hr

theorem occupied_root (hr : s.IsRoot r) : s.Occupied r [] r :=
  ⟨tracked_of_root hr (Nat.zero_le 3), rfl⟩

theorem follow_one (ram : Ram) (r : Nat) (i : Fin 512) : follow next ram r [i] = (ram r i).next 0 :=
  follow_snoc (p := []) (follow_nil r) i

variable {l : Nat}

theorem Inv.root_eq (hs : s.Inv) {r' : Nat} {p' : List (Fin 512)} (h : s.Occupied r p l)
    (h' : s.Occupied r' p' l) (hp : p = [] ∨ Lower p) : r = r' ∧ p = p' := by
  obtain ⟨heq, hroot⟩ := hs.separated h h'
  refine ⟨?_, heq⟩
  rcases hroot with hroot | ⟨i, q, hiq, hi⟩
  · exact hroot
  rcases hp with rfl | ⟨j, t, rfl, hj⟩
  · cases hiq
  · cases hiq
    exact absurd hi hj

variable {m : Machine} {a b : Nat}

theorem Owned.ne_of_clear (h : Owned m a) (hb : m.taken b = false) : a ≠ b := by
  intro heq
  rw [heq] at h
  rw [h.taken] at hb
  cases hb

theorem Owned.of_taken {m' : Machine} (h : Owned m a) (ht : m'.taken a = true) : Owned m' a :=
  { h with taken := ht }

theorem Owned.div_ne (ha : Owned m a) (hb : Owned m b) (hne : a ≠ b) : a / 4096 ≠ b / 4096 := by
  have h₁ := ha.aligned
  have h₂ := hb.aligned
  omega

theorem boot_occupied (h : (boot m).Occupied r p l) :
    r = m.vmm.rootPml4Paddr ∧ p.length ≤ 3 ∧ follow next m.ram m.vmm.rootPml4Paddr p = some l := by
  rcases h.tracked with ⟨hr | hr, hlen⟩ | ⟨hr, _⟩
  · have hr : r = m.vmm.rootPml4Paddr := hr
    exact ⟨hr, hlen, hr ▸ h.follows⟩
  · cases Finset.notMem_empty r hr
  · cases Finset.notMem_empty r hr

theorem inv_boot {sec : Sections} {pdpt pd2 pd1 pt0 : Nat} (k : KernelTables m sec pdpt pd2 pd1 pt0)
    (hsize : m.pmm.bitmap.size ≤ 2 ^ 40) : (boot m).Inv := by
  refine ⟨?_, Or.inl k.activeRoot_eq, Finset.notMem_empty _, hsize, ?_, ?_, ?_, ?_, ?_, ?_, ?_⟩
  · change m.vmm = ⟨m.vmm.rootPml4Paddr, true⟩
    rw [← k.initialized]
  · intro r p r' p' l h h'
    obtain ⟨hr, hlen, hf⟩ := boot_occupied h
    obtain ⟨hr', hlen', hf'⟩ := boot_occupied h'
    exact ⟨k.follow_inj hlen hlen' hf hf', Or.inl (hr.trans hr'.symm)⟩
  · intro r p l h
    obtain ⟨_, hlen, hf⟩ := boot_occupied h
    obtain ⟨hne, hal, hlt, ht⟩ := k.frame_of_follow hlen hf
    exact ⟨hne, hal, by omega, ht⟩
  · intro a ha
    cases Finset.notMem_empty a ha
  · intro a ha
    cases Finset.notMem_empty a ha
  · intro u i hu
    cases Finset.notMem_empty u hu
  · exact ⟨pdpt, (k.pml4_next 511).trans (if_pos rfl)⟩
  · intro u hu
    cases Finset.notMem_empty u hu

end System

end LlamaOS.Memory
