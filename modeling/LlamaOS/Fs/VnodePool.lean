import LlamaOS.Fs.Confinement
import LlamaOS.Fs.VfsCalls

/-!
# The pool of vnodes over a run

No call gives a vnode back, `close` included. Whether a file can be opened depends on the
vnodes that all calls before have taken.
-/

namespace LlamaOS.Fs
open Fat32Volume Kept Vfs

variable {v : Fat32Volume} {node : Fat32VNode} {slot flags : Nat} {code : Int} {path : CString}

section Calls

variable {s s' : Vfs} {root fuel : Nat}

theorem VnodeCall.run_ready {v v' : Fat32Volume} {slot : Nat} {call : VnodeCall}
    (h : call.run fuel v slot = some v') (hready : Ready v.fs) : Ready v'.fs :=
  Performs.ready (VnodeCall.run_performs h) hready

variable {v' : Fat32Volume} {name : CString} {type : NodeType} {res : Int} {child : Option Nat}

theorem create_alloc (h : v.create fuel node name type = some (res, child, v')) :
    ∃ fs₁, (child = none ∧ v' = { v with fs := fs₁ }) ∨
      ∃ created, { v with fs := fs₁ }.allocVnode created = (child, v') := by
  unfold create at h
  split at h
  · cases h
    exact ⟨v.fs, Or.inl ⟨rfl, rfl⟩⟩
  split at h
  · cases h
    exact ⟨_, Or.inl ⟨rfl, rfl⟩⟩
  split at h
  · cases h
  · obtain ⟨_, rfl, rfl⟩ := h
    exact ⟨_, Or.inr ⟨_, rfl⟩⟩
  rename_i prev fs₁ _
  unfold createAppended at h
  split at h
  · simp only at h
    split at h
    · obtain ⟨_, rfl, rfl⟩ := h
      exact ⟨_, Or.inr ⟨_, rfl⟩⟩
    · cases h
      exact ⟨_, Or.inl ⟨rfl, rfl⟩⟩
  · cases h
    exact ⟨_, Or.inl ⟨rfl, rfl⟩⟩

theorem create_kept (hready : Ready s.vol.fs) (hcounted : s.vol.Counted)
    (h : s.vol.create fuel (s.vol.vnodePool slot) name type = some (res, child, v')) :
    Kept s { s with vol := v' } 1 ∧ (maxCachedVnodes ≤ s.vol.vnodeCount → child = none) := by
  have hready' : Ready v'.fs := @VnodeCall.run_ready _ _ _ slot (.create name type)
    (by rw [VnodeCall.run, h]; rfl) hready
  obtain ⟨fs₁, ⟨rfl, rfl⟩ | ⟨created, halloc⟩⟩ := create_alloc h
  · have hfirst : Kept s { s with vol := { s.vol with fs := fs₁ } } 0 :=
      same hcounted hready' rfl rfl rfl
    exact ⟨hfirst.mono (Nat.zero_le _), fun _ => rfl⟩
  · have hfs : v'.fs = fs₁ := by
      have hsame := allocVnode_fs { s.vol with fs := fs₁ } created
      rw [halloc] at hsame
      exact hsame
    have hfirst : Kept s { s with vol := { s.vol with fs := fs₁ } } 0 :=
      same hcounted (hfs ▸ hready') rfl rfl rfl
    rcases allocVnode_grown (v := { s.vol with fs := fs₁ }) (hfs ▸ hready') hcounted created with
      ⟨hroom, slot', v'', halloc', hgrown, _⟩ | ⟨_, halloc'⟩
    · rw [halloc] at halloc'
      cases halloc'
      exact ⟨(hfirst.trans (grown hgrown)), fun hfull => absurd hroom (Nat.not_lt_of_le hfull)⟩
    · rw [halloc] at halloc'
      cases halloc'
      exact ⟨hfirst.mono (Nat.zero_le _), fun _ => rfl⟩

theorem openVnode_kept (hready : Ready s.vol.fs) (hcounted : s.vol.Counted)
    (h : s.openVnode slot flags = (code, s')) : Kept s s' 0 := by
  have htruncate : Kept s (s.truncateVnode slot) 0 :=
    same hcounted (@VnodeCall.run_ready 0 _ _ slot (.truncate 0) rfl hready) rfl rfl rfl
  have hnode : Kept s (if flags &&& oTrunc ≠ 0 then s.truncateVnode slot else s) 0 := by
    split
    · exact htruncate
    · exact refl hready hcounted
  unfold openVnode at h
  generalize (if flags &&& oTrunc ≠ 0 then s.truncateVnode slot else s) = s₁ at hnode h
  simp only at h
  split at h
  · cases h
    exact hnode
  rename_i fd _
  cases h
  have hfd : ∀ d, Kept s₁ (s₁.setFd fd d) 0 := fun d => same hnode.counted hnode.ready rfl rfl rfl
  exact hnode.trans (hfd _)

theorem open_kept (hs : s.Steady root) (h : s.open fuel path flags = some (code, s')) :
    Kept s s' (resolved path).length := by
  unfold Vfs.open at h
  split at h
  · cases h
  rename_i r s₁ hresolve
  obtain ⟨k, hfirst, hresult⟩ := resolvePath_grown hs hresolve
  cases hresult with
  | found hk =>
    exact (hfirst.trans (openVnode_kept hfirst.ready hfirst.counted (Option.some.inj h))).mono hk
  | lost hcode hk =>
    rw [if_neg (fun hone => by have hone := hone.1; simp only at hone; omega)] at h
    cases h
    exact hfirst.mono hk
  | missing hk =>
    split at h
    · simp only at h
      split at h
      · cases h
      rename_i cres node vol hcreated
      have hmade := (create_kept hfirst.ready hfirst.counted hcreated).1
      split at h
      · cases h
        exact (hfirst.trans hmade).mono hk
      split at h
      · cases h
        exact (hfirst.trans hmade).mono hk
      · have hopened := openVnode_kept hmade.ready hmade.counted (Option.some.inj h)
        exact ((hfirst.trans hmade).trans hopened).mono hk
    · cases h
      exact hfirst.mono (by omega)

theorem advance_kept (hready : Ready s.vol.fs) (hcounted : s.vol.Counted) (fd : Nat) (bytes : Int) :
    Kept s (s.advance fd bytes) 0 := by
  unfold advance
  split
  · exact same hcounted hready rfl rfl rfl
  · exact refl hready hcounted

theorem path_kept (hs : s.Steady root) {r : Resolution}
    (h : s.resolvePath fuel path = some (r, s')) : Kept s s' (resolved path).length := by
  obtain ⟨k, hkept, hresult⟩ := resolvePath_grown hs h
  cases hresult with
  | found hk => exact hkept.mono hk
  | missing hk => exact hkept.mono (by omega)
  | lost _ hk => exact hkept.mono hk

/-- The calls over a descriptor that do not write. -/
def VfsCall.Reads : VfsCall → Prop
  | .close _ | .read _ _ | .seek _ _ _ | .readdir _ _ => True
  | _ => False

theorem VfsCall.run_reads {P : Access → Prop} {g : Geometry} (hP : Permits P g) {call : VfsCall}
    (hcall : call.Reads) (h : call.run fuel s = some s') :
    ∃ fs fds n, s' = { s with vol := { s.vol with fs }, fds } ∧ Performs P n s.vol.fs fs := by
  have hfds :
      ∀ fds, ∃ fs fds' n, { s with fds } = { s with vol := { s.vol with fs }, fds := fds' } ∧
      Performs P n s.vol.fs fs := fun fds => ⟨s.vol.fs, fds, 0, rfl, .refl⟩
  cases call with
  | close fd =>
    cases h
    unfold Vfs.close
    split
    · exact hfds _
    · split <;> exact hfds _
  | seek fd offset origin =>
    cases h
    unfold Vfs.seek
    split
    · exact hfds _
    cases origin with
    | set | current | endOfFile =>
      simp only
      split <;> exact hfds _
  | read fd count =>
    cases h
    unfold Vfs.read
    split
    · exact hfds _
    rename_i fd slot _
    have hread := read_performs hP s.vol.fs (s.vol.vnodePool slot) (s.fds fd).offset count
    unfold Vfs.advance
    simp only
    split <;> exact ⟨_, _, _, rfl, hread⟩
  | readdir fd index =>
    obtain ⟨⟨code, entry, s₁⟩, hreaddir, rfl⟩ := Option.map_eq_some_iff.mp h
    unfold Vfs.readdir at hreaddir
    split at hreaddir
    · cases hreaddir
      exact hfds _
    split at hreaddir
    · cases hreaddir
    rename_i hrun
    cases hreaddir
    exact ⟨_, _, _, rfl, readdir_performs hP hrun⟩
  | «open» | write | stat | mkdir | unlink => exact hcall.elim

theorem VfsCall.run_stat {path : CString} (h : (VfsCall.stat path).run fuel s = some s') :
    ∃ r, s.resolvePath fuel path = some (r, s') := by
  obtain ⟨⟨code, entry, s₁⟩, hstat, rfl⟩ := Option.map_eq_some_iff.mp h
  unfold Vfs.stat at hstat
  split at hstat
  · cases hstat
  rename_i r s₂ hresolve
  split at hstat
  · cases hstat
    exact ⟨r, hresolve⟩
  split at hstat <;> cases hstat <;> exact ⟨r, hresolve⟩

theorem VfsCall.run_kept (hs : s.Steady root) {call : VfsCall} (h : call.run fuel s = some s') :
    Kept s s' call.components := by
  have hreads : call.Reads → Kept s s' 0 := by
    intro hcall
    obtain ⟨fs, fds, n, rfl, hfs⟩ := run_reads (anyAccess_permits s.vol.fs.geo) hcall h
    exact same hs.counted (hfs.ready hs.ready) rfl rfl rfl
  cases call with
  | «open» path flags =>
    obtain ⟨⟨code, s₁⟩, hopen, rfl⟩ := Option.map_eq_some_iff.mp h
    exact open_kept hs hopen
  | close | seek | read | readdir => exact hreads trivial
  | write fd src =>
    cases h
    unfold Vfs.write
    split
    · exact refl hs.ready hs.counted
    rename_i fd slot _
    have hrun : (VnodeCall.write (s.fds fd).offset (some src)).run 0 s.vol slot =
        some (s.vol.setNode slot
          (s.vol.fs.write (s.vol.vnodePool slot) (s.fds fd).offset (some src)).2.1
          (s.vol.fs.write (s.vol.vnodePool slot) (s.fds fd).offset (some src)).2.2) := rfl
    have hwritten : Kept s (s.setVnode slot
        (s.vol.fs.write (s.vol.vnodePool slot) (s.fds fd).offset (some src)).2.1
        (s.vol.fs.write (s.vol.vnodePool slot) (s.fds fd).offset (some src)).2.2) 0 :=
      same hs.counted (VnodeCall.run_ready hrun hs.ready) rfl rfl rfl
    exact hwritten.trans (advance_kept hwritten.ready hwritten.counted fd _)
  | stat path =>
    obtain ⟨r, hresolve⟩ := run_stat h
    exact path_kept hs hresolve
  | mkdir path =>
    obtain ⟨⟨code, s₁⟩, hmkdir, rfl⟩ := Option.map_eq_some_iff.mp h
    unfold Vfs.mkdir at hmkdir
    split at hmkdir
    · cases hmkdir
    rename_i r s₂ hresolve
    obtain ⟨k, hkept, hresult⟩ := resolvePath_grown hs hresolve
    cases hresult with
    | found hk =>
      cases hmkdir
      exact hkept.mono hk
    | lost _ hk =>
      rw [if_neg (fun hvnode => by cases hvnode.2)] at hmkdir
      cases hmkdir
      exact hkept.mono hk
    | missing hk =>
      rw [if_neg (fun hvnode => by cases hvnode.2)] at hmkdir
      simp only at hmkdir
      split at hmkdir
      · cases hmkdir
      · rename_i res node vol hcreated
        cases hmkdir
        exact (hkept.trans (create_kept hkept.ready hkept.counted hcreated).1).mono hk
  | unlink path =>
    obtain ⟨⟨code, s₁⟩, hunlink, rfl⟩ := Option.map_eq_some_iff.mp h
    unfold Vfs.unlink at hunlink
    split at hunlink
    · cases hunlink
    rename_i r s₂ hresolve
    have hkept := path_kept hs hresolve
    split at hunlink
    · cases hunlink
      exact hkept
    rename_i parent _
    split at hunlink
    · cases hunlink
      exact hkept
    split at hunlink
    · cases hunlink
    rename_i res fs hrun
    cases hunlink
    have hready := @VnodeCall.run_ready _ s₂.vol { s₂.vol with fs } parent (.unlink r.basename)
      (by rw [VnodeCall.run, hrun]; rfl) hkept.ready
    have hremoved : Kept s₂ { s₂ with vol := { s₂.vol with fs } } 0 :=
      same hkept.counted hready rfl rfl rfl
    exact hkept.trans hremoved

end Calls

section Runs

variable {s s₀ : Vfs} {root : Nat} {calls : List VfsCall}

theorem Vfs.Steady.kept {s' : Vfs} {k : Nat} (hs : s.Steady root) (h : Kept s s' k) :
    s'.Steady root :=
  ⟨h.ready, h.counted, h.mount.trans hs.mount, h.inUse root hs.used⟩

theorem VfsRun.steady (hs : s₀.Steady root) (hrun : VfsRun s₀ calls s) :
    s.Steady root ∧ s.vol.vnodeCount ≤ s₀.vol.vnodeCount + (calls.map VfsCall.components).sum := by
  induction hrun with
  | start => exact ⟨hs, Nat.le_refl _⟩
  | call _ hcall ih =>
    have hkept := VfsCall.run_kept ih.1 hcall
    refine ⟨ih.1.kept hkept, Nat.le_trans hkept.upper ?_⟩
    rw [List.map_append, List.sum_append, List.map_singleton, List.sum_singleton, ← Nat.add_assoc]
    exact Nat.add_le_add_right ih.2 _

theorem mount_steady {dev : BlockDevice} {heap : KernelHeap}
    (hmount : mount dev heap = (code, some (root, v))) (hready : Ready v.fs) :
    ({ vol := v, root := some root } : Vfs).Steady root ∧ v.vnodeCount = 1 := by
  obtain ⟨rfl, hcount, hused, _⟩ := mount_pool hmount
  refine ⟨⟨hready, ?_, rfl, ?_⟩, hcount⟩
  · unfold Fat32Volume.Counted
    rw [hused, hcount]
    rfl
  · rw [hused]
    rfl

def Vfs.Opens (fuel : Nat) (s : Vfs) (path : CString) (flags : Nat) : Prop :=
  ∃ fd s', s.open fuel path flags = some (fd, s') ∧ 0 ≤ fd

theorem freeFd_closed (hclosed : ∀ i < maxFileDescriptors, (s.fds i).inUse = false) :
    s.freeFd = some 3 := by
  unfold freeFd
  rw [show List.range' 3 (maxFileDescriptors - 3) = 3 :: List.range' 4 60 from
    rfl, List.find?_cons_of_pos]
  rw [hclosed 3 (by decide)]
  rfl

theorem openVnode_opens (hclosed : ∀ i < maxFileDescriptors, (s.fds i).inUse = false)
    (slot flags : Nat) : 0 ≤ (s.openVnode slot flags).1 := by
  have hfree : (if flags &&& oTrunc ≠ 0 then s.truncateVnode slot else s).freeFd = some 3 := by
    split
    · exact freeFd_closed hclosed
    · exact freeFd_closed hclosed
  unfold openVnode
  simp only [hfree]
  decide

variable {fuel : Nat}

theorem resolved_opens {s₁ : Vfs} {base : CString} {parent : Option Nat}
    (hclosed : ∀ i < maxFileDescriptors, (s₁.fds i).inUse = false)
    (hresolve : s.resolvePath fuel path = some (⟨0, some slot, parent, base⟩, s₁)) :
    s.Opens fuel path flags := by
  refine ⟨(s₁.openVnode slot flags).1, (s₁.openVnode slot flags).2, ?_,
    openVnode_opens hclosed slot flags⟩
  rw [Vfs.open, hresolve]
  rfl

/-- An existing file can be opened if and only if the pool has a vnode for each component of its
path. -/
theorem opens_iff (hs : s.Steady root) (hclosed : ∀ i < maxFileDescriptors, (s.fds i).inUse = false)
    {norm : CString} (hnorm : normalizePath path pathMax = some norm)
    (hexists : s.vol.fs.locate fuel (s.vol.vnodePool root) (resolved path) = some (some node))
    (flags : Nat) :
    s.Opens fuel path flags ↔ s.vol.vnodeCount + (resolved path).length ≤ maxCachedVnodes := by
  rcases List.eq_nil_or_concat' (resolved path) with hnil | ⟨before, leaf, hpath⟩
  · have hresolve : s.resolvePath fuel path = some (⟨0, some root, none, [slash]⟩, s) := by
      rw [resolvePath_segments hs.mount hnorm, if_pos hnil]
    have hcount := hs.counted
    have hle :=
      Finset.card_filter_le (Finset.range maxCachedVnodes) (fun i => s.vol.vnodeInUse i = true)
    rw [Finset.card_range, hcount] at hle
    rw [hnil]
    exact ⟨fun _ => hle, fun _ => resolved_opens hclosed hresolve⟩
  · rw [hpath, Fat32Filesystem.locate_append] at hexists
    rw [hpath, List.length_append, List.length_singleton]
    cases hparent : s.vol.fs.locate fuel (s.vol.vnodePool root) before with
    | none =>
      rw [hparent] at hexists
      cases hexists
    | some found =>
      cases found with
      | none =>
        rw [hparent] at hexists
        cases hexists
      | some parent =>
        have hleaf : s.vol.fs.find fuel parent leaf = some (some node) := by
          rw [hparent] at hexists
          simp only [Fat32Filesystem.locate] at hexists
          split at hexists
          · cases hexists
          · cases hexists
          · rename_i child hfind
            cases hexists
            exact hfind
        constructor
        · rintro ⟨fd, s', hopen, hfd⟩
          by_contra hfull
          rw [Vfs.open] at hopen
          by_cases hroom : s.vol.vnodeCount + before.length ≤ maxCachedVnodes
          · obtain ⟨v', pslot, hgrown, _, hresolve⟩ :=
              resolvePath_missing hs hnorm hpath hparent hleaf hroom (Or.inr (by omega))
            simp only [hresolve] at hopen
            split at hopen
            · split at hopen
              · cases hopen
              rename_i cres created vol hcreated
              have hkept := grown hgrown
              have hnone :=
                (create_kept hkept.ready hkept.counted hcreated).2 (by rw [hgrown.count]; omega)
              subst hnone
              cases hopen
              exact absurd hfd (by decide)
            · cases hopen
              exact absurd hfd (by decide)
          · rcases resolvePath_lost hs hnorm hpath (fun _ _ => Nat.lt_of_not_le hroom) with
              hnone | ⟨v', k, _, hresolve⟩
            · rw [hnone] at hopen
              cases hopen
            · rw [hresolve] at hopen
              cases hopen
              exact absurd hfd (by decide)
        · intro hroom
          obtain ⟨v', slot, pslot, _, _, _, hresolve⟩ :=
            resolvePath_found hs hnorm hpath hparent hleaf hroom
          have hclosed' : ∀ i < maxFileDescriptors, (({ s with vol := v' } : Vfs).fds i).inUse =
            false := hclosed
          exact resolved_opens hclosed' hresolve

/-- After any run that leaves no descriptor open, an existing file can be opened if and only if the
vnodes taken so far and the components of its path together are at most 64; this holds as long as
the paths of the run are few. -/
theorem opens_after_run_iff {dev : BlockDevice} {heap : KernelHeap} {code : Int} {v : Fat32Volume}
    (hmount : Fat32Volume.mount dev heap = (code, some (root, v))) (hready : Ready v.fs)
    (hrun : VfsRun { vol := v, root := some root } calls s)
    (hclosed : ∀ i < maxFileDescriptors, (s.fds i).inUse = false) {fuel : Nat} {path norm : CString}
    {node : Fat32VNode} (hnorm : normalizePath path pathMax = some norm)
    (hexists : s.vol.fs.locate fuel (s.vol.vnodePool root) (resolved path) = some (some node))
    (flags : Nat) :
    (s.Opens fuel path flags ↔ s.vol.vnodeCount + (resolved path).length ≤ maxCachedVnodes) ∧
      (1 + (calls.map VfsCall.components).sum + (resolved path).length ≤ maxCachedVnodes →
        s.Opens fuel path flags) := by
  obtain ⟨hsteady, hcount⟩ := mount_steady hmount hready
  obtain ⟨hs, hle⟩ := hrun.steady hsteady
  have hiff := opens_iff hs hclosed hnorm hexists flags
  refine ⟨hiff, fun hfew => hiff.mpr ?_⟩
  simp only [hcount] at hle
  omega

end Runs

def strayPath : CString := [slash, 0x41]

def strayVfs : Vfs := { vol := strayVolume 3, root := some 0 }

/-- `stat` of `/A`, 63 times; `open` fails then. -/
theorem stats_exhaust_pool :
    Fat32Volume.mount (strayDevice 3) {} = (0, some (0, strayVolume 3)) ∧
      ∃ s, VfsRun strayVfs (List.replicate 63 (.stat strayPath)) s ∧
      (∀ i < maxFileDescriptors, (s.fds i).inUse = false) ∧
      (∃ node, s.vol.fs.locate 2 (s.vol.vnodePool 0) (resolved strayPath) = some (some node)) ∧
      (s.open 2 strayPath 0).map (·.1) = some (-4) := by
  have hall : (runCalls 2 strayVfs (List.replicate 63 (.stat strayPath))).any (fun s =>
      decide (∀ i < maxFileDescriptors, (s.fds i).inUse = false) &&
        ((s.vol.fs.locate 2 (s.vol.vnodePool 0) (resolved strayPath)).any (·.isSome) &&
          decide ((s.open 2 strayPath 0).map (·.1) = some (-4)))) = true := by decide +kernel
  obtain ⟨s, hrun, hs⟩ := (Option.any_eq_true _ _).mp hall
  obtain ⟨hclosed, hs⟩ := Bool.and_eq_true_iff.mp hs
  obtain ⟨hlocate, hopen⟩ := Bool.and_eq_true_iff.mp hs
  obtain ⟨found, hfound, hsome⟩ := (Option.any_eq_true _ _).mp hlocate
  obtain ⟨node, rfl⟩ := Option.isSome_iff_exists.mp hsome
  exact ⟨rfl, s, runCalls_run hrun, of_decide_eq_true hclosed, ⟨node, hfound⟩,
    of_decide_eq_true hopen⟩

theorem open_close_reopens :
    ∃ s, VfsRun strayVfs [.open strayPath 0, .close 3] s ∧ s.Opens 2 strayPath 0 := by
  have hall : (runCalls 2 strayVfs [.open strayPath 0, .close 3]).any (fun s =>
      decide (∀ i < maxFileDescriptors, (s.fds i).inUse = false) &&
        (s.vol.fs.locate 2 (s.vol.vnodePool 0) (resolved strayPath)).any (·.isSome)) =
          true := by decide +kernel
  obtain ⟨s, hrun, hs⟩ := (Option.any_eq_true _ _).mp hall
  obtain ⟨hclosed, hlocate⟩ := Bool.and_eq_true_iff.mp hs
  obtain ⟨found, hfound, hsome⟩ := (Option.any_eq_true _ _).mp hlocate
  obtain ⟨node, rfl⟩ := Option.isSome_iff_exists.mp hsome
  have hready : Ready (strayVolume 3).fs :=
    ready_of_small rfl ⟨rfl, fun _ => rfl⟩ rfl (show 7 ≤ 20 by decide) fun _ => rfl
  have hmount : mount (strayDevice 3) {} = (0, some (0, strayVolume 3)) := rfl
  have hrun' := runCalls_run hrun
  exact ⟨s, hrun',
    (@opens_after_run_iff _ _ _ _ _ _ _ hmount hready hrun' (of_decide_eq_true hclosed) _ _
    strayPath _ (by decide) hfound 0).2 (by decide)⟩

end LlamaOS.Fs
