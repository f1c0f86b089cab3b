import LlamaOS.Fs.VnodePool

/-!
# Descriptors for reading

No call looks at the access mode of a descriptor. Calls over descriptors for reading leave the
volume as it is, except for `write`, which writes.
-/

namespace LlamaOS.Fs
open Fat32Volume Transcript

def Access.Reads : Access → Prop
  | .writeFat _ _ | .writeCluster _ _ => False
  | _ => True

theorem onlyReads_permits : Permits Access.Reads noClusters where
  allocate := trivial
  flush := trivial
  readFat _ := trivial
  readCluster _ := trivial
  writeFat _ _ hc := absurd hc.2 (Nat.not_lt.mpr hc.1)
  writeCluster _ _ hc := absurd hc.2 (Nat.not_lt.mpr hc.1)

theorem Performs.bytes_eq {n : Nat} {fs fs' : Fat32Filesystem}
    (h : Performs Access.Reads n fs fs') : fs'.dev.bytes = fs.dev.bytes := by
  refine h.invariant (I := fun s => s.dev.bytes = fs.dev.bytes) ?_ rfl
  intro s a ha hs
  rw [← hs]
  cases a with
  | allocate | flush => rfl
  | readFat c => exact readFatEntry_bytes s c
  | readCluster c => exact readCluster_bytes s c
  | writeFat c value => exact ha.elim
  | writeCluster c src => exact ha.elim

/-- The contents stay, and so does every vnode that is in use. -/
structure Fat32Volume.Unchanged (v v' : Fat32Volume) : Prop where
  bytes : v'.fs.dev.bytes = v.fs.dev.bytes
  nodes : ∀ i, v.vnodeInUse i = true → v'.vnodeInUse i = true ∧ v'.vnodePool i = v.vnodePool i

namespace Fat32Volume.Unchanged

variable {v v' v'' : Fat32Volume} {n : Nat}

theorem reads {fs : Fat32Filesystem} (h : Performs Access.Reads n v.fs fs) :
    v.Unchanged { v with fs } :=
  ⟨h.bytes_eq, fun _ hi => ⟨hi, rfl⟩⟩

theorem refl : v.Unchanged v := ⟨rfl, fun _ hi => ⟨hi, rfl⟩⟩

theorem trans (h : v.Unchanged v') (h' : v'.Unchanged v'') : v.Unchanged v'' := by
  refine ⟨h'.bytes.trans h.bytes, fun i hi => ?_⟩
  obtain ⟨hi', hnode⟩ := h.nodes i hi
  obtain ⟨hi'', hnode'⟩ := h'.nodes i hi'
  exact ⟨hi'', hnode'.trans hnode⟩

theorem allocVnode (v : Fat32Volume) (node : Fat32VNode) : v.Unchanged (v.allocVnode node).2 := by
  unfold Fat32Volume.allocVnode
  split
  · exact .refl
  rename_i slot hslot
  refine ⟨rfl, fun i hi => ?_⟩
  have hne : i ≠ slot := by
    rintro rfl
    have hfree := List.find?_some hslot
    rw [hi] at hfree
    cases hfree
  exact ⟨(if_neg hne).trans hi, if_neg hne⟩

end Fat32Volume.Unchanged

variable {fuel : Nat}

theorem lookup_unchanged {v v' : Fat32Volume} {node : Fat32VNode} {name : CString} {res : Int}
    {child : Option Nat} (h : v.lookup fuel node name = some (res, child, v')) :
    v.Unchanged v' := by
  have hbytes := (lookup_performs onlyReads_permits h).bytes_eq
  suffices hnodes : ∃ fs, { v with fs }.Unchanged v' by
    obtain ⟨fs, hfs⟩ := hnodes
    exact ⟨hbytes, hfs.nodes⟩
  unfold lookup at h
  split at h
  · cases h
    exact ⟨_, .refl⟩
  split at h
  · cases h
    exact ⟨_, .refl⟩
  split at h
  · cases h
  · cases h
    exact ⟨_, .refl⟩
  rename_i curr e fs hscan
  have halloc :=
    Unchanged.allocVnode { v with fs } ⟨e.type, e.firstCluster, e.fileSize, curr, e.dirOffset⟩
  split at h
  · rename_i heq
    cases h
    rw [heq] at halloc
    exact ⟨fs, halloc⟩
  · rename_i heq
    cases h
    rw [heq] at halloc
    exact ⟨fs, halloc⟩

theorem walkSegments_unchanged (segments : List CString) {curr : Nat} {v v' : Fat32Volume}
    {r : Resolution} (h : walkSegments fuel segments curr v = some (r, v')) : v.Unchanged v' := by
  induction segments generalizing curr v v' r with
  | nil =>
    cases h
    exact .refl
  | cons segment rest ih =>
    cases rest with
    | nil =>
      rw [walkSegments] at h
      split at h
      · cases h
      rename_i hlookup
      cases h
      exact lookup_unchanged hlookup
    | cons next rest =>
      rw [walkSegments_cons (List.cons_ne_nil _ _)] at h
      split at h
      · cases h
      rename_i hlookup
      have hfirst := lookup_unchanged hlookup
      split at h
      · cases h
        exact hfirst
      split at h
      · cases h
        exact hfirst
      exact hfirst.trans (ih h)

variable {s s' s₀ : Vfs}

theorem resolvePath_unchanged {path : CString} {r : Resolution}
    (h : s.resolvePath fuel path = some (r, s')) : s.vol.Unchanged s'.vol := by
  unfold Vfs.resolvePath at h
  split at h
  · cases h
    exact .refl
  split at h
  · cases h
    exact .refl
  split at h
  · cases h
    exact .refl
  split at h
  · cases h
  rename_i hwalk
  cases h
  exact walkSegments_unchanged _ hwalk

/-- A call over descriptors for reading only. -/
def VfsCall.ForReading : VfsCall → Prop
  | .open _ flags => flags &&& 3 = 1 ∧ flags &&& oCreat = 0 ∧ flags &&& oTrunc = 0
  | .mkdir _ | .unlink _ => False
  | _ => True

/-- The call is not a `write` of some bytes to an open file. -/
def VfsCall.Harmless (s : Vfs) : VfsCall → Prop
  | .write fd src =>
    ∀ n slot, s.descriptor fd = some (n, slot) → (s.vol.vnodePool slot).type = .file → src = []
  | _ => True

inductive ReadingRun (s₀ : Vfs) : Vfs → Prop where
  | start : ReadingRun s₀ s₀
  | call {s s' : Vfs} {call : VfsCall} {fuel : Nat} (h : ReadingRun s₀ s) (hcall : call.ForReading)
      (hharmless : call.Harmless s) (hrun : call.run fuel s = some s') : ReadingRun s₀ s'

theorem VfsCall.run_unchanged {call : VfsCall} (hcall : call.ForReading)
    (hharmless : call.Harmless s) (h : call.run fuel s = some s') : s.vol.Unchanged s'.vol := by
  cases call with
  | «open» path flags =>
    obtain ⟨⟨code, s₁⟩, hopen, rfl⟩ := Option.map_eq_some_iff.mp h
    unfold Vfs.open at hopen
    split at hopen
    · cases hopen
    rename_i r s₂ hresolve
    have hresolved := resolvePath_unchanged hresolve
    rw [if_neg fun hcreat => hcreat.2 hcall.2.1] at hopen
    split at hopen
    · cases hopen
      exact hresolved
    split at hopen
    · cases hopen
      exact hresolved
    rename_i slot _ _
    have hvol : (s₂.openVnode slot flags).2.vol = s₂.vol := by
      unfold Vfs.openVnode
      rw [if_neg (not_not.mpr hcall.2.2)]
      simp only
      split <;> rfl
    rw [← Option.some.inj hopen, hvol] at *
    exact hresolved
  | close | read | seek | readdir =>
    obtain ⟨fs, fds, n, rfl, hfs⟩ := run_reads onlyReads_permits (by trivial) h
    exact .reads hfs
  | write fd src =>
    cases h
    unfold Vfs.write
    split
    · exact .refl
    rename_i fd slot hfd
    have hsame : ∃ code, s.vol.fs.write (s.vol.vnodePool slot) (s.fds fd).offset (some src) =
        (code, s.vol.vnodePool slot, s.vol.fs) := by
      by_cases hfile : (s.vol.vnodePool slot).type = .file
      · rw [hharmless _ _ hfd hfile, Fat32Filesystem.write, if_neg (not_not.mpr hfile)]
        exact ⟨_, rfl⟩
      · rw [Fat32Filesystem.write, if_pos hfile]
        exact ⟨_, rfl⟩
    obtain ⟨code, hcode⟩ := hsame
    have hkept : s.setVnode slot (s.vol.vnodePool slot) s.vol.fs = s := by
      have hpool : (fun i => if i = slot then s.vol.vnodePool slot else s.vol.vnodePool i) =
          s.vol.vnodePool := by
        funext i
        split
        · rename_i heq
          rw [heq]
        · rfl
      unfold Vfs.setVnode
      rw [hpool]
    rw [hcode]
    simp only [hkept]
    unfold Vfs.advance
    split <;> exact .refl
  | stat path =>
    obtain ⟨r, hresolve⟩ := run_stat h
    exact resolvePath_unchanged hresolve
  | mkdir path => exact hcall.elim
  | unlink path => exact hcall.elim

theorem reading_run_unchanged (h : ReadingRun s₀ s) : s₀.vol.Unchanged s.vol := by
  induction h with
  | start => exact .refl
  | call _ hcall hharmless hrun ih => exact ih.trans (VfsCall.run_unchanged hcall hharmless hrun)

theorem runCalls_reading {calls : List VfsCall}
    (hcalls : ∀ call ∈ calls, call.ForReading ∧ ∀ s, call.Harmless s) {fuel : Nat}
    (h : runCalls fuel s₀ calls = some s) : ReadingRun s₀ s := by
  induction calls using List.reverseRecOn generalizing s with
  | nil =>
    cases h
    exact .start
  | append_singleton calls call ih =>
    rw [runCalls, List.foldlM_append] at h
    obtain ⟨s₁, hbefore, hcall⟩ := Option.bind_eq_some_iff.mp h
    obtain ⟨s₂, hrun, hlast⟩ := Option.bind_eq_some_iff.mp hcall
    cases hlast
    obtain ⟨hreading, hharmless⟩ :=
      hcalls call (List.mem_append_right _ (List.mem_singleton_self call))
    have hfirst := ih (fun call hcall => hcalls call (List.mem_append_left _ hcall)) hbefore
    exact .call hfirst hreading (hharmless s₁) hrun

theorem strayPath_forReading : (VfsCall.open strayPath 1).ForReading := ⟨rfl, rfl, rfl⟩

/-- The file is opened for reading, read to its end, read again from its third byte on and
closed. -/
def readingCalls : List VfsCall :=
  [.open strayPath 1, .read 3 7, .seek 3 2 .set, .read 3 1, .write 3 [], .stat strayPath, .close 3]

theorem strayVfs_read :
    ∃ s, runCalls 2 strayVfs readingCalls = some s ∧ strayVfs.vol.fs.dev.log.length <
      s.vol.fs.dev.log.length ∧ (s.fds 3).inUse = false ∧ strayVfs.vol.Unchanged s.vol := by
  have hall : (runCalls 2 strayVfs readingCalls).any (fun s =>
      decide (strayVfs.vol.fs.dev.log.length < s.vol.fs.dev.log.length) && !(s.fds 3).inUse) =
        true := by
    decide +kernel
  obtain ⟨s, hrun, hs⟩ := (Option.any_eq_true _ _).mp hall
  obtain ⟨hlog, hclosed⟩ := Bool.and_eq_true_iff.mp hs
  have hcalls : ∀ call ∈ readingCalls, call.ForReading ∧ ∀ s, call.Harmless s := by
    simp only [readingCalls, List.forall_mem_cons, List.not_mem_nil, false_imp_iff,
      implies_true, and_true]
    exact ⟨⟨strayPath_forReading, fun _ => trivial⟩, ⟨trivial, fun _ => trivial⟩,
      ⟨trivial, fun _ => trivial⟩,
      ⟨trivial, fun _ => trivial⟩, ⟨trivial, fun _ _ _ _ _ => rfl⟩, ⟨trivial, fun _ => trivial⟩,
        trivial, fun _ => trivial⟩
  exact ⟨s, hrun, of_decide_eq_true
    hlog, by simpa using hclosed, reading_run_unchanged (runCalls_reading hcalls hrun)⟩

/-- A byte is written over a descriptor for reading. -/
theorem strayVfs_written :
    (VfsCall.open strayPath 1).ForReading ∧ (VfsCall.write 3 [0x42]).ForReading ∧
    ∃ s, VfsRun strayVfs [.open strayPath 1, .write 3 [0x42]] s ∧
      ¬ strayVfs.vol.Unchanged s.vol := by
  have hall : (runCalls 2 strayVfs [.open strayPath 1, .write 3 [0x42]]).any (fun s =>
      s.vol.fs.dev.bytes 2048 != strayVfs.vol.fs.dev.bytes 2048) = true := by decide +kernel
  obtain ⟨s, hrun, hs⟩ := (Option.any_eq_true _ _).mp hall
  refine ⟨strayPath_forReading, trivial, s, runCalls_run hrun, fun h => ?_⟩
  exact absurd (congrFun h.bytes 2048) (bne_iff_ne.mp hs)

end LlamaOS.Fs
