import VirtualComputer.Machine.Save
import VirtualComputer.Proofs.Guest.EntryPoints
import VirtualComputer.Proofs.Machine.Updates

/-!
# Saving and loading keep machines sound

A record that a sound machine saves with standard entry points holds a suspended kernel (`save_saved`), and a machine
that loads such a record with standard entry points goes on with a guest that waits (`load_sound`).
-/

namespace VirtualComputer

/-! ## Records that have been saved -/

/-- The states of records with a guest. -/
def State.Collapsed (s : State) : Prop :=
  s = .suspended ∨ s = .yielded ∨ s = .synchronizedCall ∨ s = .synchronizedReturn

/-- The record of a machine without a guest, or of one whose kernel waits. -/
def MachineRecord.Saved (r : MachineRecord) : Prop :=
  (r.state = State.stopped.code ∨ r.state = State.rebooting.code) ∨
    ∃ (s : State) (co : Thread), r.state = s.code ∧ s.Collapsed ∧ co.status = .suspended ∧
      r.kernel = some (Utf8.encode (Val.thread co).store)

theorem State.ofCode_code (s : State) : State.ofCode? s.code = some s := by
  cases s <;> rfl

namespace Machine

variable {ν : Type} {site : Site ν} {m : Machine ν} {g : Guest} {r : MachineRecord}

/-! ## Saving -/

theorem persist_told (g : Guest) (v : Option Val) (m : Machine ν) : m.Told (m.persist g v).2 := by
  unfold persist
  dsimp only
  cases (g.persist (v.getD .null)).2 with
  | none => exact .refl m
  | some w => exact .of_told _ m

theorem recordRun_told (s : State) (g : Guest) (m : Machine ν) : m.Told (m.recordRun s g).2 := by
  have hkernel := persist_told g g.kernel m
  unfold recordRun
  dsimp only
  split
  · exact hkernel.trans (persist_told g g.pending _)
  · exact hkernel

/-- Saving only tells something. -/
theorem save_told (m : Machine ν) : m.Told m.save.2 := by
  unfold save
  split
  · exact .refl m
  · exact .refl m
  · exact .refl m
  · exact .refl m
  · dsimp only
    split
    · exact .refl m
    · exact recordRun_told _ _ m

theorem save_sound (h : m.Sound) : m.save.2.Sound := by
  rw [Sound, (save_told m).lifecycle]
  exact h

theorem persist_run (hg : g.Standard) (v : Option Val) (m : Machine ν) :
    m.persist g v = (Utf8.encode (v.getD .null).store, m) := by
  unfold persist
  rw [persist_standard hg]
  rfl

/-- The record of a run with a standard guest. -/
theorem recordRun_eq (hg : g.Standard) (s : State) (m : Machine ν) : (m.recordRun s g).1 = {
    state := s.code
    kernel := some (Utf8.encode (g.kernel.getD .null).store)
    stack := if s = .synchronizedCall || s = .synchronizedReturn then
      some (Utf8.encode (g.pending.getD .null).store) else none
    signals := some (m.queue.signals.map SignalRecord.ofSignal)
    rom := some m.catalog.save
    kernelMemory := some m.ledger.kernelMemory
    started := some m.ledger.started
    cpuTime := some m.ledger.cpuTime
    message := m.message } := by
  unfold recordRun
  rw [persist_run hg]
  dsimp only
  rw [persist_run hg]
  split <;> rfl

/-- The state and the kernel of a record. -/
theorem recordRun_fields (hg : g.Standard) (s : State) (v : Val) (hv : g.kernel = some v) (m : Machine ν) :
    (m.recordRun s g).1.state = s.code ∧ (m.recordRun s g).1.kernel = some (Utf8.encode v.store) := by
  rw [recordRun_eq hg, hv]
  exact ⟨rfl, rfl⟩

/-- The record of a machine with a run. -/
theorem save_guest (hg : m.guest = some g) (hs : m.state.collapsed.Collapsed) :
    m.save.1 = .ok (m.recordRun m.state.collapsed g).1 := by
  rcases m with ⟨state, guest, _⟩
  cases hg
  cases state with
  | running | stopping | stopped | rebooting => rcases hs with h | h | h | h <;> cases h
  | suspended | yielded | sleeping | paused | synchronizedCall | synchronizedReturn | synchronizedReturnPaused => rfl

/-- What a sound machine saves while nobody is inside a resume. -/
theorem save_saved (h : m.Sound) (hi : m.inside = none) (hst : ∀ g, m.guest = some g → g.Standard)
    (hr : m.save.1 = .ok r) : r.Saved := by
  rcases m with ⟨state, guest, task, epoch, waiting, inside, _⟩
  have hrun {s : State} {g : Guest} {m : Machine ν} (hs : s.Collapsed) (hg : g.Waits) (hst : g.Standard) :
      (m.recordRun s g).1.Saved := by
    obtain ⟨co, hkernel, hstatus⟩ := hg
    obtain ⟨hcode, hbytes⟩ := recordRun_fields hst s (.thread co) hkernel m
    exact .inr ⟨s, co, hcode, hs, hstatus, hbytes⟩
  cases h with
  | empty hs hw =>
    rcases hs with rfl | rfl <;> cases hr
    · exact .inl (.inl rfl)
    · exact .inl (.inr rfl)
  | resting hs hg hp hw =>
    rcases hs with rfl | rfl | rfl | rfl | rfl <;> cases hr <;>
      exact hrun (by simp [State.Collapsed, State.collapsed]) hg (hst _ rfl)
  | queued hs hg hp hw =>
    rcases hs with rfl | rfl | rfl <;> cases hr
    · exact hrun (.inr (.inl rfl)) hg (hst _ rfl)
    · exact hrun (.inr (.inr (.inr rfl))) hg (hst _ rfl)
    · exact .inl (.inl rfl)
  | busy hs hw => cases hi

/-! ## Loading -/

theorem restorePart_ok {part : Part} {bytes : Option Bytes} {v : Val} (h : restorePart g part bytes = .ok v) :
    ∃ b, bytes = some b ∧ g.restore b = .ok (some v) := by
  unfold restorePart at h
  split at h
  · cases h
  · cases h
  · next b _ =>
    split at h
    · next hb =>
      cases h
      exact ⟨b, rfl, hb⟩
    · cases h
    · cases h

/-- A kernel that is restored is a coroutine. -/
theorem restoreKernel_ok {v : Val} (h : restoreKernel g r = .ok v) :
    ∃ co, v = .thread co ∧ restorePart g .kernel r.kernel = .ok v := by
  unfold restoreKernel at h
  cases hp : restorePart g .kernel r.kernel with
  | error c =>
    rw [hp] at h
    cases h
  | ok w =>
    rw [hp] at h
    cases w <;> cases h
    exact ⟨_, rfl, rfl⟩

/-- What is restored to the pending slot suits the state in which the run goes on. -/
theorem restorePending_holds {s : State} {slot : Option Val} (hs : s.Collapsed) (h : restorePending s g r = .ok slot)
    (other : Option Val) : (restoredState s).Holds (slot.or other) := by
  rcases hs with rfl | rfl | rfl | rfl
  · trivial
  · trivial
  · unfold restorePending at h
    cases hp : restorePart g .stack r.stack with
    | error c =>
      rw [hp] at h
      cases h
    | ok v =>
      rw [hp] at h
      by_cases hv : v.isCallable
      · obtain rfl : some v = slot := Except.ok.inj ((if_pos hv).symm.trans h)
        exact ⟨v, rfl, hv⟩
      · cases (if_neg hv).symm.trans h
  · unfold restorePending at h
    cases hp : restorePart g .stack r.stack with
    | error c =>
      rw [hp] at h
      cases h
    | ok v =>
      rw [hp] at h
      cases v <;> cases h
      exact ⟨_, rfl⟩

/-- A guest with restored slots goes on from the kernel of the record. -/
theorem restoreGuest_ok {s : State} {g' : Guest} (h : restoreGuest s g r = .ok g') : ∃ co slot,
    restorePart g .kernel r.kernel = .ok (.thread co) ∧ restorePending s g r = .ok slot ∧
      g' = { g with kernel := some (.thread co), pending := slot.or g.pending } := by
  unfold restoreGuest at h
  cases hk : restoreKernel g r with
  | error c =>
    rw [hk] at h
    cases h
  | ok v =>
    obtain ⟨co, rfl, hpart⟩ := restoreKernel_ok hk
    rw [hk] at h
    cases hp : restorePending s g r with
    | error c =>
      rw [hp] at h
      cases h
    | ok slot =>
      rw [hp] at h
      cases h
      exact ⟨co, slot, hpart, rfl, rfl⟩

/-- A load that fails only tells something, as far as it has come. -/
theorem loadRun_told {s : State} {f : Failure} (h : (loadRun site s r m).1 = .error f) :
    m.Told (loadRun site s r m).2 := by
  have hboot := bootGuest_told site m
  unfold loadRun at h ⊢
  rcases hb : bootGuest site m with ⟨f | g, m'⟩ <;> rw [hb] at h hboot <;> dsimp only at h ⊢
  · exact hboot
  · cases hg : restoreGuest s g r with
    | error c => exact hboot
    | ok g' =>
      rw [hg] at h
      cases h

theorem loadRun_error {s : State} {f : Failure} (h : (loadRun site s r m).1 = .error f) :
    (loadRun site s r m).2.lifecycle = m.lifecycle :=
  (loadRun_told h).lifecycle

/-- A run that is loaded goes on with a guest that has booted and holds what the record does. -/
theorem loadRun_ok {s : State} (h : (loadRun site s r m).1 = .ok ()) :
    ∃ g g' m', (bootGuest site m).1 = .ok g ∧ m.Told m' ∧ restoreGuest s g r = .ok g' ∧
      loadRun site s r m = (.ok (), resumeRun site s g' r m') := by
  have hboot := bootGuest_told site m
  unfold loadRun at h ⊢
  rcases hb : bootGuest site m with ⟨f | g, m'⟩ <;> rw [hb] at h hboot <;> dsimp only at h ⊢
  · cases h
  · cases hg : restoreGuest s g r with
    | error c =>
      rw [hg] at h
      cases h
    | ok g' => exact ⟨g, g', m', rfl, hboot, hg, rfl⟩

/-- A load that succeeds leaves the guest waiting where the record was saved. -/
theorem loadRun_sound {s : State} {co : Thread} (hm : m.state = .stopped) (h : m.Sound) (hs : s.Collapsed)
    (hco : co.status = .suspended) (hr : r.kernel = some (Utf8.encode (Val.thread co).store))
    (hok : (loadRun site s r m).1 = .ok ()) (hst : ∀ g, (loadRun site s r m).2.guest = some g → g.Standard) :
    (loadRun site s r m).2.Sound := by
  have hboot := bootGuest_told site m
  obtain ⟨hl, hw⟩ := h.stopped hm
  unfold loadRun at hok hst ⊢
  rcases hb : bootGuest site m with ⟨f | g, m'⟩ <;> rw [hb] at hok hst hboot <;> dsimp only at hok hst ⊢
  · cases hok
  · cases hg' : restoreGuest s g r with
    | error c =>
      rw [hg'] at hok
      cases hok
    | ok g' =>
      rw [hg'] at hst
      obtain ⟨co', slot, hkernel, hslot, rfl⟩ := restoreGuest_ok hg'
      have hg : g.Standard := by
        have hguest := hst _ rfl
        exact ⟨hguest.persist, hguest.unpersist⟩
      obtain ⟨bytes, hbytes, hrestore⟩ := restorePart_ok hkernel
      obtain rfl : Utf8.encode (Val.thread co).store = bytes := Option.some.inj (hr.symm.trans hbytes)
      obtain ⟨co'', hco'', hreread⟩ := restore_thread hg hrestore
      cases hco''
      show Lifecycle.Sound { m'.lifecycle with state := restoredState s, guest := some _ }
      rw [show m'.lifecycle = m.lifecycle from hboot.lifecycle, hl]
      refine .resting ?_ ⟨co', rfl, hreread.status.trans hco⟩ (restorePending_holds hs hslot _) hw
      rcases hs with rfl | rfl | rfl | rfl <;> simp [restoredState, State.Resting]

/-- The machine with the address of the catalog that a record is about. -/
def readdressed (r : MachineRecord) (m : Machine ν) : Machine ν :=
  { m with catalog := r.rom.elim m.catalog m.catalog.load }

theorem tryLoad_error (hr : r.Saved) {f : Failure} (h : (tryLoad site r m).1 = .error f) :
    (tryLoad site r m).2.lifecycle = m.lifecycle := by
  unfold tryLoad at h ⊢
  dsimp only at h ⊢
  rcases hr with (hr | hr) | ⟨s, co, hr, hs, -, -⟩
  · rw [hr, State.ofCode_code] at h
    cases h
  · rw [hr, State.ofCode_code] at h
    cases h
  · rw [hr, State.ofCode_code] at h ⊢
    rcases hs with rfl | rfl | rfl | rfl <;> exact loadRun_error h

theorem tryLoad_sound (hm : m.state = .stopped) (h : m.Sound) (hr : r.Saved) (hok : (tryLoad site r m).1 = .ok ())
    (hst : ∀ g, (tryLoad site r m).2.guest = some g → g.Standard) : (tryLoad site r m).2.Sound := by
  obtain ⟨hl, hw⟩ := h.stopped hm
  unfold tryLoad at hok hst ⊢
  dsimp only at hok hst ⊢
  rcases hr with (hr | hr) | ⟨s, co, hr, hs, hco, hkernel⟩
  · rw [hr, State.ofCode_code]
    exact h
  · rw [hr, State.ofCode_code]
    show Lifecycle.Sound { m.lifecycle with state := .rebooting }
    rw [hl]
    exact .empty (.inr rfl) hw
  · have hrun := @loadRun_sound ν site { m with catalog := r.rom.elim m.catalog m.catalog.load } r s co hm h hs hco
      hkernel
    rw [hr, State.ofCode_code] at hok hst ⊢
    rcases hs with rfl | rfl | rfl | rfl <;> dsimp only at hok hst ⊢ <;> exact hrun hok hst

/-- A machine that loads a record goes on with its run, or is left stopped. -/
theorem load_sound (h : m.Sound) (hi : m.inside = none) (hr : r.Saved)
    (hst : ∀ g, (load site r m).guest = some g → g.Standard) : (load site r m).Sound := by
  have hclose := h.close hi
  have hstopped := (hclose.stopped (close_state m)).1
  unfold load at hst ⊢
  rcases ht : tryLoad site r m.close with ⟨f | _, m'⟩ <;> rw [ht] at hst
  · have hm' := @tryLoad_error ν site m.close r hr f (by rw [ht])
    rw [ht, hstopped] at hm'
    refine Sound.close (m := m'.tell _) ?_ (congrArg Lifecycle.inside hm')
    show m'.lifecycle.Sound
    rw [hm', ← hstopped]
    exact hclose
  · have hm' := @tryLoad_sound ν site m.close r (close_state m) hclose hr (by rw [ht])
    rw [ht] at hm'
    exact hm' hst

end Machine

end VirtualComputer
