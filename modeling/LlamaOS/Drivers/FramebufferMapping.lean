import LlamaOS.Drivers.Framebuffer
import LlamaOS.Memory.PageMapping

/-!
# Where the framebuffer is seen

After a successful `init` the byte at offset `off` of the framebuffer is seen at `s_vaddr + off`, in
every address space: through the direct map, or through pages of the MMIO window that `init` mapped
one after the other.
-/

namespace LlamaOS.Drivers
open Boot Memory Memory.System VirtualAddress VirtualMemoryManager

structure Accepted (info : FramebufferInfo) (totalSize : Nat) : Prop where
  address : info.address ≠ 0
  width : 0 < info.width ∧ info.width ≤ 7680
  height : 0 < info.height ∧ info.height ≤ 4320
  bpp : info.bpp = 16 ∨ info.bpp = 24 ∨ info.bpp = 32
  row : info.width * ((info.bpp + 7) / 8) ≤ info.pitch
  total : totalSize = info.pitch * info.height

theorem validateMetadata_accepts {info : FramebufferInfo} {type totalSize : Nat}
    (hpitch : info.pitch < 2 ^ 32)
    (h : validateMetadata info.address info.pitch info.width info.height info.bpp type =
      some totalSize) : Accepted info totalSize := by
  unfold validateMetadata at h
  split at h
  · cases h
  rename_i haddress
  split at h
  · cases h
  rename_i hwidth
  split at h
  · cases h
  rename_i hheight
  split at h
  · cases h
  rename_i hbpp
  split at h
  · cases h
  dsimp only at h
  split at h
  · cases h
  rename_i hrow
  split at h
  · cases h
  split at h
  · cases h
  obtain rfl := Option.some.inj h
  have hbpp' : info.bpp = 16 ∨ info.bpp = 24 ∨ info.bpp = 32 := by omega
  have hsmall : info.pitch * info.height ≤ 2 ^ 32 * 4320 :=
    Nat.mul_le_mul (Nat.le_of_lt hpitch) (by omega)
  refine ⟨haddress, by omega, by omega, hbpp', ?_, Nat.mod_eq_of_lt (by omega)⟩
  rcases hbpp' with hb | hb | hb <;> rw [hb] at hrow ⊢ <;> omega

def directPlan (paddr totalSize : Nat) : MappingPlan where
  alignedPaddr := paddr - paddr % 4096
  pageOffset := paddr % 4096
  totalMappedBytes := paddr % 4096 + totalSize
  numPages := (paddr % 4096 + totalSize + 4095) / 4096
  baseVaddr := physToVirt (paddr - paddr % 4096)
  framebufferVaddr := physToVirt paddr
  usesDirectMap := true

def windowPlan (paddr totalSize : Nat) : MappingPlan where
  alignedPaddr := paddr - paddr % 4096
  pageOffset := paddr % 4096
  totalMappedBytes := paddr % 4096 + totalSize
  numPages := (paddr % 4096 + totalSize + 4095) / 4096
  baseVaddr := mmioWindowStart
  framebufferVaddr := mmioWindowStart + paddr % 4096
  usesDirectMap := false

theorem calculateMappingPlan_cases {paddr totalSize : Nat} {plan : MappingPlan}
    (hfits : paddr + totalSize < 2 ^ 52) (h : calculateMappingPlan paddr totalSize = some plan) :
    (plan = directPlan paddr totalSize ∧ paddr + totalSize ≤ directMapPhysLimit) ∨
      (plan = windowPlan paddr totalSize ∧ paddr % 4096 + totalSize ≤ mmioWindowSize) := by
  have haligned : paddr &&& (2 ^ 64 - 4096) = paddr - paddr % 4096 := by
    rw [show 2 ^ 64 - 4096 = 2 ^ 64 - pageSize from rfl, land_pageMask (by omega)]
    omega
  have hoffset : paddr &&& 0xFFF = paddr % 4096 := Nat.and_two_pow_sub_one_eq_mod paddr 12
  have htotal : add64 (paddr % 4096) totalSize = paddr % 4096 + totalSize := add64_eq (by omega)
  have hround : add64 (paddr % 4096 + totalSize) 4095 = paddr % 4096 + totalSize + 4095 :=
    add64_eq (by omega)
  have hend : add64 paddr totalSize = paddr + totalSize := add64_eq (by omega)
  have hvaddr : add64 mmioWindowStart (paddr % 4096) = mmioWindowStart + paddr % 4096 :=
    add64_eq (by simp only [mmioWindowStart]; omega)
  unfold calculateMappingPlan at h
  simp only [haligned, hoffset, htotal, hround, hend, hvaddr] at h
  split at h
  · cases h
  split at h
  · cases h
  split at h
  · rename_i hdirect
    obtain rfl := Option.some.inj h
    exact .inl ⟨rfl, hdirect.2⟩
  split at h
  · cases h
  split at h
  · cases h
  rename_i hsize
  split at h
  · cases h
  split at h
  · cases h
  split at h
  · cases h
  obtain rfl := Option.some.inj h
  exact .inr ⟨rfl, Nat.le_of_not_lt hsize⟩

/-- The pages the loop maps are translated to their frames, and older translations stand. -/
theorem mapPages_maps {plan : MappingPlan} (hbase : plan.baseVaddr = mmioWindowStart) (left : Nat)
    {i : Nat} {s : System} {m' : Machine} (hs : Standing s)
    (hwindow : (i + left) * 4096 ≤ mmioWindowSize)
    (hphys : plan.alignedPaddr + (i + left) * 4096 ≤ 2 ^ 52)
    (h : Framebuffer.mapPages plan left i s.machine = some (true, m')) :
    Standing (s.withMachine m') ∧
      (∀ vaddr target, isCanonical vaddr = true → walk s.ram s.kernelRoot vaddr = some target →
        walk m'.ram s.kernelRoot vaddr = some target) ∧
      ∀ j, i ≤ j → j < i + left → ∀ o < 4096, ∃ flags,
        walk m'.ram s.kernelRoot (mmioWindowStart + j * 4096 + o) =
          some (plan.alignedPaddr + j * 4096 + o, flags) := by
  induction left generalizing i s m' with
  | zero =>
    obtain rfl : s.machine = m' := congrArg Prod.snd (Option.some.inj h)
    exact ⟨hs, fun _ _ _ hw => hw, fun j hlo hhi => by omega⟩
  | succ left ih =>
    have hwindow' : (i + 1 + left) * 4096 ≤ mmioWindowSize := by rwa [Nat.add_assoc, Nat.add_comm 1]
    have hphys' : plan.alignedPaddr + (i + 1 + left) * 4096 ≤ 2 ^ 52 := by
      rwa [Nat.add_assoc, Nat.add_comm 1]
    simp only [mmioWindowSize] at hwindow
    have hvaddr : add64 plan.baseVaddr (i * 4096) = mmioWindowStart + i * 4096 := by
      rw [hbase]
      exact add64_eq (by simp only [mmioWindowStart]; omega)
    have hpaddr : add64 plan.alignedPaddr (i * 4096) = plan.alignedPaddr + i * 4096 :=
      add64_eq (by omega)
    unfold Framebuffer.mapPages at h
    rw [hvaddr, hpaddr] at h
    obtain ⟨⟨status, m₁⟩, hmap, hrest⟩ := Option.bind_eq_some_iff.mp h
    dsimp only at hrest
    by_cases hstatus : status = .success
    · rw [if_neg (not_not_intro hstatus)] at hrest
      rw [hstatus] at hmap
      have hinv := inv_reachable hs.reachable
      have hroot : s.machine.vmm.rootPml4Paddr = s.kernelRoot := by rw [hinv.vmm]
      unfold mapPage at hmap
      rw [hroot] at hmap
      have hstep :
          Step s (.map s.kernelRoot (mmioWindowStart + i * 4096) (plan.alignedPaddr + i * 4096)
          Framebuffer.mappingFlags) (s.withMachine m₁) := .mappedOther (Or.inl rfl)
            (fun huser => hinv.kernel huser.1) hmap
      have hs₁ : Standing (s.withMachine m₁) := .step hs hstep fun _ _ => trivial
      obtain ⟨hs', hkept, hmapped⟩ := ih hs₁ hwindow' hphys' hrest
      refine ⟨hs', fun vaddr target hcanon hw => ?_, fun j hlo hhi o ho => ?_⟩
      · have hkeep := step_stands hinv hstep hcanon trivial hw
        exact hkept vaddr target hcanon hkeep
      · by_cases hj : j = i
        · subst hj
          obtain ⟨flags, hpage⟩ := walk_mapped_page hinv (Or.inl rfl) (by omega) hmap ho
          refine ⟨flags, hkept _ _ ?_ hpage⟩
          have hcanon := @isCanonical_window (0x20000000 + j * 4096 + o) (by omega)
          rwa [show 0xFFFFFFFF80000000 + (0x20000000 + j * 4096 + o) =
              mmioWindowStart + j * 4096 + o by
            simp only [mmioWindowStart]; omega] at hcanon
        · exact hmapped j (by omega) (by omega) o ho
    · rw [if_pos hstatus] at hrest
      obtain ⟨m₂, _, hfalse⟩ := Option.bind_eq_some_iff.mp hrest
      cases hfalse

/-- The driver's state after a successful `init`. -/
structure Mapped (info : FramebufferInfo) (fb : Framebuffer) (s : System) : Prop where
  accepted : Accepted info fb.totalSize
  available : fb.available = true
  geometry : fb.width = info.width ∧ fb.height = info.height ∧ fb.pitch = info.pitch ∧
    fb.bpp = info.bpp
  standing : Standing s
  inside : fb.vaddr + fb.totalSize < 2 ^ 64
  seen : ∀ off < fb.totalSize, ∀ r, s.IsRoot r →
    (walk s.ram r (fb.vaddr + off)).map Prod.fst = some (info.address + off)

theorem init_mapped {info : FramebufferInfo} {fb : Framebuffer} {s : System} {m' : Machine}
    (hs : Standing s) (hpitch : info.pitch < 2 ^ 32)
    (hfits : info.address + info.pitch * info.height < 2 ^ 52)
    (h : Framebuffer.init info s.machine = some (true, fb, m')) :
    Mapped info fb (s.withMachine m') := by
  unfold Framebuffer.init at h
  split at h
  · cases h
  split at h
  · cases h
  rename_i totalSize hvalid
  have hacc := validateMetadata_accepts hpitch hvalid
  rw [← hacc.total] at hfits
  split at h
  · cases h
  rename_i plan hplan
  rcases calculateMappingPlan_cases hfits hplan with ⟨rfl, hlimit⟩ | ⟨rfl, hsize⟩
  · simp only [directMapPhysLimit] at hlimit
    obtain ⟨rfl, rfl⟩ := Prod.mk.inj (Prod.mk.inj (Option.some.inj h)).2
    have hvirt : physToVirt info.address = 0xFFFFFFFF80000000 + info.address := physToVirt_eq (by
      omega)
    refine ⟨hacc, rfl, ⟨rfl, rfl, rfl, rfl⟩, hs, ?_, fun off hoff r hr => ?_⟩
    · show physToVirt info.address + totalSize < 2 ^ 64
      omega
    · change off < totalSize at hoff
      show (walk s.ram r (physToVirt info.address + off)).map Prod.fst = _
      obtain ⟨flags, hw⟩ := hs.direct (a := info.address + off) (by omega)
      rw [physToVirt_eq (by omega)] at hw
      rw [hvirt, Nat.add_assoc, walk_window hs.reachable hr (by omega), hw]
      rfl
  · rw [if_neg (show ¬ (windowPlan info.address totalSize).usesDirectMap = true from
      Bool.false_ne_true)] at h
    simp only [mmioWindowSize] at hsize
    split at h
    · cases h
    · cases h
    rename_i m₁ hmap
    obtain ⟨rfl, rfl⟩ := Prod.mk.inj (Prod.mk.inj (Option.some.inj h)).2
    have hpages : (0 + (windowPlan info.address totalSize).numPages) * 4096 ≤ mmioWindowSize := by
      simp only [windowPlan, mmioWindowSize]
      omega
    have hphys : (windowPlan info.address totalSize).alignedPaddr +
        (0 + (windowPlan info.address totalSize).numPages) * 4096 ≤ 2 ^ 52 := by
      simp only [windowPlan]
      omega
    obtain ⟨hs', _, hmapped⟩ := mapPages_maps rfl _ hs hpages hphys hmap
    refine ⟨hacc, rfl, ⟨rfl, rfl, rfl, rfl⟩, hs', ?_, fun off hoff r hr => ?_⟩
    · show mmioWindowStart + info.address % 4096 + totalSize < 2 ^ 64
      simp only [mmioWindowStart]
      omega
    · change off < totalSize at hoff
      show (walk m₁.ram r (mmioWindowStart + info.address % 4096 + off)).map Prod.fst = _
      have hj : (info.address % 4096 + off) / 4096 <
          0 + (windowPlan info.address totalSize).numPages := by
        simp only [windowPlan]
        omega
      obtain ⟨flags, hw⟩ :=
        hmapped _ (Nat.zero_le _) hj ((info.address % 4096 + off) % 4096) (by omega)
      have hroots := @walk_window (s.withMachine m₁) hs'.reachable r hr
        (0x20000000 + info.address % 4096 + off) (by omega)
      have hsame : mmioWindowStart + info.address % 4096 + off =
          0xFFFFFFFF80000000 + (0x20000000 + info.address % 4096 + off) := by
        simp only [mmioWindowStart]
        omega
      have hsplit : mmioWindowStart + (info.address % 4096 + off) / 4096 * 4096 +
          (info.address % 4096 + off) % 4096 =
          0xFFFFFFFF80000000 + (0x20000000 + info.address % 4096 + off) := by
        omega
      have htarget : (windowPlan info.address totalSize).alignedPaddr +
          (info.address % 4096 + off) / 4096 * 4096 + (info.address % 4096 + off) % 4096 =
            info.address + off := by
        simp only [windowPlan]
        omega
      rw [hsplit, htarget] at hw
      rw [hsame]
      exact (congrArg _ (hroots.trans hw)).trans rfl

end LlamaOS.Drivers
