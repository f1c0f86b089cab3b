import LlamaOS.Drivers.RequestChains

/-!
# What a successful transfer has moved

When nothing is outstanding at the device as a transfer starts, the status byte the driver
presets turns to success only when the device has served the very request, so success means that
the data has been moved. A request that was given up earlier may still be outstanding: it writes
the same status byte and the same bounce buffer.
-/

namespace LlamaOS.Drivers
open ByteBuffer
open Storage (BlockStatus validateBounds)

namespace Machine

variable {m m' : Machine}

theorem Configured.prepare (m : Machine) (type sector : Nat) :
    Configured m (m.prepare type sector) :=
  ⟨rfl, rfl⟩

variable {type sector : Nat}

theorem prepare_request (m : Machine) (htype : type < 256 ^ 4) (hsector : sector < 256 ^ 8)
    (head len : Nat) :
    (m.prepare type sector).request head len =
      ⟨head, type, sector, some (m.bounceAddr, len), m.statusAddr⟩ := by
  have hbytes : HasBytes (m.prepare type sector).mem m.dmaPhys
      (leBytes 4 type ++ leBytes 4 0 ++ leBytes 8 sector) := by
    have hstatus : m.dmaPhys + 16 ≤ m.statusAddr := by unfold statusAddr; omega
    exact (hasBytes_patch _ _ _).patch_outside (.inl hstatus)
  have htype' : loadLe (m.prepare type sector).mem m.dmaPhys 4 = type :=
    hbytes.left.left.loadLe.trans (Nat.mod_eq_of_lt htype)
  have hsector' : loadLe (m.prepare type sector).mem (m.dmaPhys + 8) 8 = sector :=
    hbytes.right.loadLe.trans (Nat.mod_eq_of_lt hsector)
  unfold request
  rw [show (m.prepare type sector).dmaPhys = m.dmaPhys from rfl, htype', hsector']
  rfl

/-- A request is submitted and waited for, or there are too few descriptors. -/
theorem exchange_cases (hready : m.Ready) (type sector : Nat) (flags : BitVec 16) (len : Nat) :
    (∃ a b c free q, q.Claimed [a, b, c] free ∧ m.exchange type sector flags len =
      let awaited := ({ (m.tick.prepare type sector).tick with requestq := q }.submitTransfer a b c
        flags len).await a
      if !awaited.1 then (some .timeout, awaited.2) else awaited.2.checkStatus) ∨
    ∃ free q, q.Claimed [] free ∧ m.exchange type sector flags len =
      (some .deviceFault, { (m.tick.prepare type sector).tick with requestq := q }) := by
  have hready' : (m.tick.prepare type sector).Ready := m.alike_tick.ready hready
  obtain ⟨free₀, h₀⟩ := (alike_tick _).ready hready'
  obtain ⟨free₁, h₁⟩ := h₀.alloc
  obtain ⟨free₂, h₂⟩ := h₁.alloc
  obtain ⟨free₃, h₃⟩ := h₂.alloc
  unfold exchange
  dsimp only
  split
  · rename_i a b c ha hb hc
    rw [ha, hb, hc] at h₃
    exact .inl ⟨a, b, c, free₃, _, h₃, rfl⟩
  rename_i e₀ e₁ e₂ _
  have htaken : ∀ x y z : Option Nat, [] ++ x.toList ++ y.toList ++ z.toList =
      [x, y, z].filterMap id := by
    intro x y z
    cases x <;> cases y <;> cases z <;> rfl
  rw [htaken] at h₃
  obtain ⟨free, hback⟩ := h₃.giveBack
  exact .inr ⟨free, _, hback, rfl⟩

variable {flags : BitVec 16} {len : Nat} {status : Option BlockStatus}

theorem checkStatus_spec (hx : m.checkStatus = (status, m')) : Alike m m' ∧ status ≠ some .success ∧
    (status = none → m' = m.tick ∧ m.tick.mem m.tick.statusAddr = 0) := by
  unfold checkStatus at hx
  dsimp only at hx
  split at hx
  · cases hx
    refine ⟨m.alike_tick.trans (alike_tick _), ?_, nofun⟩
    split <;> exact nofun
  · rename_i hstatus
    cases hx
    exact ⟨m.alike_tick, nofun, fun _ => ⟨rfl, not_not.mp hstatus⟩⟩

theorem exchange_step (hready : m.Ready) (hx : m.exchange type sector flags len = (status, m')) :
    m'.Ready ∧ Configured m m' ∧ status ≠ some .success := by
  have hticks : Configured m (m.tick.prepare type sector).tick :=
    m.alike_tick.configured.trans
      ((Configured.prepare _ type sector).trans (alike_tick _).configured)
  rcases exchange_cases hready type sector flags len with
    ⟨a, b, c, free, q, h, heq⟩ | ⟨free, q, h, heq⟩
  · obtain ⟨hawait, hconf⟩ := submitTransfer_ready
      (m := { (m.tick.prepare type sector).tick with requestq := q }) h flags len
    have hconf' := hticks.trans ⟨hconf.initialized, hconf.dmaPhys⟩
    rw [heq] at hx
    dsimp only at hx
    split at hx
    · cases hx
      exact ⟨hawait, hconf', nofun⟩
    · obtain ⟨halike, hfailure, _⟩ := checkStatus_spec hx
      exact ⟨halike.ready hawait, hconf'.trans halike.configured, hfailure⟩
  · rw [heq] at hx
    cases hx
    exact ⟨⟨free, h⟩, ⟨hticks.initialized, hticks.dmaPhys⟩, nofun⟩

theorem prepare_status (m : Machine) (type sector : Nat) :
    (m.prepare type sector).mem m.statusAddr = 0xFF := by
  unfold prepare
  dsimp only
  rw [patch_inside _ (Nat.le_refl _) (Nat.lt_succ_self _), Nat.sub_self]
  rfl

theorem serve_status (m : Machine) (r : DeviceRequest) (status : BitVec 8) :
    (m.serve r status).mem r.status = status := by
  unfold serve
  dsimp only
  rw [patch_inside _ (Nat.le_refl _) (Nat.lt_succ_self _), Nat.sub_self]
  rfl

variable {r : DeviceRequest}

theorem await_serving {m₀ : Machine} (h : Serving r m₀ m) (head : Nat) :
    Serving r m₀ (m.await head).2 := by
  have hwait := (waitForCompletion_spec m head).2 h
  exact hwait.still ⟨rfl, rfl, rfl⟩

theorem Serving.success {r : DeviceRequest} {m₀ : Machine} (h : Serving r m₀ m)
    (hpreset : m₀.mem r.status = 0xFF) (hstatus : m.mem r.status = 0) :
    m.pending = [] ∧ m.mem = (m₀.serve r 0).mem ∧ m.disk = (m₀.serve r 0).disk := by
  cases h with
  | waiting _ hmem _ =>
    rw [hmem, hpreset] at hstatus
    exact absurd hstatus (by decide)
  | served status hpending hmem hdisk =>
    rw [hmem, serve_status] at hstatus
    subst hstatus
    exact ⟨hpending, hmem, hdisk⟩

/-- A request that succeeds has been served, and nothing is outstanding any more. -/
theorem exchange_served (hready : m.Ready) (htype : type < 256 ^ 4) (hsector : sector < 256 ^ 8)
    (hidle : m.tick.pending = []) (hx : m.exchange type sector flags len = (none, m')) :
    ∃ r : DeviceRequest, r.type = type ∧ r.sector = sector ∧ r.data = some (m.bounceAddr, len) ∧
      r.status = m.statusAddr ∧
      m'.pending = [] ∧ m'.mem = ((m.tick.prepare type sector).serve r 0).mem ∧
      m'.disk = ((m.tick.prepare type sector).serve r 0).disk := by
  have hconf := (exchange_step hready hx).2.1
  have hdma : m.tick.dmaPhys = m.dmaPhys := m.alike_tick.dmaPhys
  rcases exchange_cases hready type sector flags len with
    ⟨a, b, c, free, q, h, heq⟩ | ⟨free, q, h, heq⟩
  · have hidle' : (m.tick.prepare type sector).pending = [] := hidle
    rw [tick_idle hidle'] at heq
    obtain ⟨hpending, hmem, hdisk⟩ := submitTransfer_pending (m := { m.tick.prepare type sector with
      schedule := (m.tick.prepare type sector).schedule.tail, requestq := q }) h flags len
    have hrequest := prepare_request m.tick htype hsector a len
    have hserving :
        Serving ((m.tick.prepare type sector).request a len) (m.tick.prepare type sector) _ :=
      .waiting (hpending.trans (by rw [hidle']; rfl)) hmem hdisk
    have hawait := await_serving hserving a
    rw [hrequest] at hawait
    rw [heq] at hx
    dsimp only at hx
    split at hx
    · cases hx
    obtain ⟨rfl, hzero⟩ := (checkStatus_spec hx).2.2 rfl
    have hstatus : m.statusAddr = m.tick.statusAddr := by unfold statusAddr; rw [hdma]
    have hbounce : m.bounceAddr = m.tick.bounceAddr := by unfold bounceAddr; rw [hdma]
    refine ⟨_, rfl,
      rfl, by rw [hbounce], hstatus.symm, hawait.tick.success (prepare_status _ _ _) ?_⟩
    rw [← hzero]
    unfold statusAddr
    rw [hconf.dmaPhys, hdma]
  · rw [heq] at hx
    cases hx

variable {addr : Nat}

theorem serve_read (m : Machine) (htype : r.type = virtioBlkTIn)
    (hdata : r.data = some (addr, len)) :
    (m.serve r 0).disk = m.disk ∧
      (m.serve r 0).mem = patch (patch m.mem addr (slice m.disk (r.sector * 512) len)) r.status
        [0] := by
  have htransfer :
      m.transfer r = { m with mem := patch m.mem addr (slice m.disk (r.sector * 512) len) } := by
    unfold transfer
    rw [hdata, htype]
    exact if_pos rfl
  unfold serve
  rw [if_pos (show (0 : BitVec 8) = virtioBlkSOk from rfl), htransfer]
  exact ⟨rfl, rfl⟩

theorem serve_write (m : Machine) (htype : r.type = virtioBlkTOut)
    (hdata : r.data = some (addr, len)) :
    (m.serve r 0).disk = patch m.disk (r.sector * 512) (slice m.mem addr len) := by
  have htransfer :
      m.transfer r = { m with disk := patch m.disk (r.sector * 512) (slice m.mem addr len) } := by
    unfold transfer
    rw [hdata, htype]
    exact (if_neg (by decide)).trans (if_pos rfl)
  unfold serve
  rw [if_pos (show (0 : BitVec 8) = virtioBlkSOk from rfl), htransfer]

theorem exchange_read (hready : m.Ready) (hsector : sector < 256 ^ 8) (hidle : m.tick.pending = [])
    (hx : m.exchange virtioBlkTIn sector flags len = (none, m')) :
    m'.pending = [] ∧ m'.disk = m.tick.disk ∧ slice m'.mem m.bounceAddr len = slice m.tick.disk
      (sector * 512) len := by
  obtain ⟨r, htype, rfl, hdata, hstatus, hpending, hmem, hdisk⟩ :=
    exchange_served hready (by decide) hsector hidle hx
  obtain ⟨hdisk', hmem'⟩ := serve_read (m.tick.prepare virtioBlkTIn r.sector) htype hdata
  refine ⟨hpending, hdisk.trans hdisk', ?_⟩
  rw [hmem, hmem', slice_eq_iff]
  intro i hi
  have hbounce : r.status + 1 ≤ m.bounceAddr + i := by
    rw [hstatus]
    unfold statusAddr bounceAddr
    omega
  rw [patch_outside _ (.inr hbounce),
    patch_inside _ (Nat.le_add_right _ _) (by rw [slice_length]; omega),
    Nat.add_sub_cancel_left, slice_getD _ hi]
  rfl

theorem exchange_write (hready : m.Ready) (hsector : sector < 256 ^ 8) (hidle : m.tick.pending = [])
    (hx : m.exchange virtioBlkTOut sector flags len = (none, m')) :
    m'.pending = [] ∧ m'.disk = patch m.tick.disk (sector * 512)
      (slice m.tick.mem m.bounceAddr len) := by
  obtain ⟨r, htype, rfl, hdata, hstatus, hpending, _, hdisk⟩ :=
    exchange_served hready (by decide) hsector hidle hx
  have hdma : m.tick.dmaPhys = m.dmaPhys := m.alike_tick.dmaPhys
  refine ⟨hpending, (hdisk.trans (serve_write _ htype hdata)).trans ?_⟩
  have hbytes : slice (m.tick.prepare virtioBlkTOut r.sector).mem m.bounceAddr len =
      slice m.tick.mem m.bounceAddr len := by
    rw [slice_eq_iff]
    intro i hi
    unfold prepare
    dsimp only
    have hfar : m.tick.statusAddr + 1 ≤ m.bounceAddr + i := by
      unfold statusAddr bounceAddr
      omega
    have hheader : m.tick.dmaPhys + 16 ≤ m.bounceAddr + i := by
      unfold bounceAddr
      omega
    rw [patch_outside _ (.inr hfar), patch_outside _ (.inr hheader)]
  rw [hbytes]
  rfl

theorem chunk_bounds {remaining : Nat} (h : remaining ≠ 0) :
    0 < (if dmaBounceSectors < remaining then dmaBounceSectors else remaining) ∧
      (if dmaBounceSectors < remaining then dmaBounceSectors else remaining) ≤ remaining := by
  unfold dmaBounceSectors
  split <;> omega

theorem readLoop_ready (rounds : Nat) : ∀ {curLba remaining : Nat} {m : Machine}, m.Ready →
    (readLoop rounds curLba remaining m).machine.Ready := by
  induction rounds with
  | zero => exact fun h => h
  | succ rounds ih =>
    intro curLba remaining m h
    rw [readLoop]
    split
    · exact h
    dsimp only
    split
    · rename_i hexchange
      exact (exchange_step h hexchange).1
    · rename_i hexchange
      exact ih ((alike_tick _).ready (exchange_step h hexchange).1)

theorem readLoop_success (rounds : Nat) {curLba remaining : Nat} {m : Machine} (hready : m.Ready)
    (hidle : m.tick.pending = []) (hbound : curLba + remaining < 256 ^ 8)
    (hrounds : remaining ≤ rounds) :
    (readLoop rounds curLba remaining m).status = .success →
      (readLoop rounds curLba remaining m).data =
          slice (readLoop rounds curLba remaining m).machine.disk (curLba * 512) (remaining * 512) ∧
        (m.pending = [] → (readLoop rounds curLba remaining m).machine.disk = m.disk) := by
  induction rounds generalizing curLba remaining m with
  | zero =>
    intro _
    obtain rfl := Nat.le_zero.mp hrounds
    exact ⟨rfl, fun _ => rfl⟩
  | succ rounds ih =>
    rw [readLoop]
    by_cases hzero : remaining = 0
    · subst hzero
      exact fun _ => ⟨rfl, fun _ => rfl⟩
    rw [if_neg hzero]
    obtain ⟨hpos, hle⟩ := chunk_bounds hzero
    generalize (if dmaBounceSectors < remaining then dmaBounceSectors else remaining) =
      chunk at hpos hle
    dsimp only
    cases hexchange : m.exchange virtioBlkTIn curLba virtqDescFWrite (chunk * 512) with
    | mk status m₁ =>
      obtain ⟨hnext, hconf, hfailure⟩ := exchange_step hready hexchange
      cases status with
      | some status =>
        intro hstatus
        exact absurd (congrArg some hstatus) hfailure
      | none =>
        obtain ⟨hpending, hdisk, hdata⟩ := exchange_read hready (by omega) hidle hexchange
        have htick := tick_idle hpending
        have hbounce : m₁.tick.bounceAddr = m.bounceAddr := by
          rw [htick]
          unfold bounceAddr
          exact congrArg (· + 4096) hconf.dmaPhys
        have hidle' := tick_pending hpending
        intro hstatus
        obtain ⟨hrest, hkeep⟩ :=
          ih ((alike_tick _).ready hnext) (tick_pending hidle') (by omega) (by omega) hstatus
        have hkeep' := hkeep hidle'
        have hfinal : m₁.tick.disk = m.tick.disk := by rw [htick]; exact hdisk
        refine ⟨?_, fun hnone => ?_⟩
        · dsimp only
          rw [hrest, hkeep', hfinal, hbounce, htick, hdata,
            Nat.add_mul, ← slice_append, ← Nat.add_mul, Nat.add_sub_cancel' hle]
        · rw [hkeep', hfinal, tick_idle hnone]

theorem writeLoop_ready (src : Buffer) (rounds : Nat) :
    ∀ {pos curLba remaining : Nat} {m : Machine}, m.Ready →
    (writeLoop src rounds pos curLba remaining m).machine.Ready := by
  induction rounds with
  | zero => exact fun h => h
  | succ rounds ih =>
    intro pos curLba remaining m h
    rw [writeLoop]
    split
    · exact h
    have hready : ∀ mem, { m.tick with mem }.Ready := fun _ => m.alike_tick.ready h
    dsimp only
    split
    · rename_i hexchange
      exact (exchange_step (hready _) hexchange).1
    · rename_i hexchange
      exact ih (exchange_step (hready _) hexchange).1

/-- The sectors hold what was written, and no other byte of the disk has changed. -/
theorem writeLoop_success (src : Buffer) (rounds : Nat) {pos curLba remaining : Nat} {m : Machine}
    (hready : m.Ready) (hidle : m.tick.pending = []) (hbound : curLba + remaining < 256 ^ 8)
    (hrounds : remaining ≤ rounds) :
    (writeLoop src rounds pos curLba remaining m).status = .success →
      (∀ i < remaining * 512, (writeLoop src rounds pos curLba remaining m).machine.disk
        (curLba * 512 + i) = src (pos + i)) ∧
        (m.pending = [] → ∀ i, i < curLba * 512 →
          (writeLoop src rounds pos curLba remaining m).machine.disk i = m.disk i) := by
  induction rounds generalizing pos curLba remaining m with
  | zero =>
    intro _
    obtain rfl := Nat.le_zero.mp hrounds
    exact ⟨fun i hi => by omega, fun _ _ _ => rfl⟩
  | succ rounds ih =>
    rw [writeLoop]
    by_cases hzero : remaining = 0
    · subst hzero
      exact fun _ => ⟨fun i hi => by omega, fun _ _ _ => rfl⟩
    rw [if_neg hzero]
    obtain ⟨hpos, hle⟩ := chunk_bounds hzero
    generalize (if dmaBounceSectors < remaining then dmaBounceSectors else remaining) =
      chunk at hpos hle
    dsimp only
    generalize hfilled : { m.tick with
      mem := patch m.tick.mem m.tick.bounceAddr (slice src pos (chunk * 512)) } = filled
    have hready' : filled.Ready := by
      rw [← hfilled]
      exact m.alike_tick.ready hready
    have hpending' : filled.pending = [] := by
      rw [← hfilled]
      exact hidle
    have hidle' := tick_pending hpending'
    have hbytes :
        slice filled.mem filled.bounceAddr (chunk * 512) = slice src pos (chunk * 512) := by
      have hpatched := hasBytes_patch m.tick.mem m.tick.bounceAddr (slice src pos (chunk * 512))
      have hslice := hpatched.slice_eq
      rw [slice_length] at hslice
      rw [← hfilled]
      exact hslice
    have hdisk' : filled.disk = m.tick.disk := by rw [← hfilled]
    cases hexchange : filled.exchange virtioBlkTOut curLba 0 (chunk * 512) with
    | mk status m₁ =>
      obtain ⟨hnext, _, hfailure⟩ := exchange_step hready' hexchange
      cases status with
      | some status =>
        intro hstatus
        exact absurd (congrArg some hstatus) hfailure
      | none =>
        obtain ⟨hpending, hdisk⟩ := exchange_write hready' (by omega) hidle' hexchange
        rw [tick_idle hpending'] at hdisk
        rw [hbytes, hdisk'] at hdisk
        intro hstatus
        obtain ⟨hrest, hkeep⟩ := ih hnext (tick_pending hpending) (by omega) (by omega) hstatus
        have hkeep' := hkeep hpending
        refine ⟨fun i hi => ?_, fun hnone i hi => ?_⟩
        · by_cases hfirst : i < chunk * 512
          · rw [hkeep' _ (by omega), hdisk,
              patch_inside _ (Nat.le_add_right _ _) (by rw [slice_length]; omega),
              Nat.add_sub_cancel_left, slice_getD _ hfirst]
          have hlater := hrest (i - chunk * 512) (by omega)
          rw [show (curLba + chunk) * 512 + (i - chunk * 512) = curLba * 512 + i by omega,
            show pos + chunk * 512 + (i - chunk * 512) = pos + i by omega] at hlater
          exact hlater
        · have hbefore : i < (curLba + chunk) * 512 :=
            Nat.lt_of_lt_of_le hi (Nat.mul_le_mul_right _ (Nat.le_add_right _ _))
          rw [hkeep' i hbefore, hdisk, patch_outside _ (.inl hi), tick_idle hnone]

end Machine

end LlamaOS.Drivers
