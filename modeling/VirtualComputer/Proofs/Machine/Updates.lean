import VirtualComputer.Proofs.Machine.Tasks

/-!
# Starts and updates keep machines sound

A start leaves the machine stopped or with a guest that waits (`start_sound`); an update queues a resume, makes the
call that the kernel asked for, or starts again after a reboot (`update_sound`).
-/

namespace VirtualComputer.Machine

variable {ν : Type} {site : Site ν} {m : Machine ν} {g : Guest}

/-! ## Starts -/

theorem bootGuest_printed (site : Site ν) (m : Machine ν) : m.Printed (bootGuest site m).2 := by
  unfold bootGuest
  dsimp only
  split
  · exact .refl m
  · next program _ =>
    have h := boot_printed site (Guest.empty.install site.settings.timeout m.catalog.drivers) program m
    split
    · next hb =>
      rw [hb] at h
      exact h
    · next hb =>
      rw [hb] at h
      exact h

theorem bootGuest_told (site : Site ν) (m : Machine ν) : m.Told (bootGuest site m).2 :=
  (bootGuest_printed site m).told

theorem Told.lifecycle {m' : Machine ν} (h : m.Told m') : m'.lifecycle = m.lifecycle := by
  obtain ⟨told, outside, -, rfl⟩ := h
  rfl

/-- Building a guest only prints something and sets the ledger. -/
theorem bootKernel_printed (site : Site ν) (m : Machine ν) :
    ∃ (texts : List String) (ledger : Ledger) (outside : ν), m.Elapses outside ∧
      (bootKernel site m).2 = { m.tellAll (texts.map .printed) with ledger, outside } := by
  have hboot := bootGuest_printed site m
  unfold bootKernel
  rcases hb : bootGuest site m with ⟨f | g, m'⟩ <;> rw [hb] at hboot
  · obtain ⟨texts, outside, helapses, rfl⟩ := hboot
    exact ⟨texts, m.ledger, outside, helapses, rfl⟩
  · dsimp only
    split
    · obtain ⟨texts, outside, helapses, rfl⟩ := hboot
      exact ⟨texts, m.ledger, outside, helapses, rfl⟩
    · next program _ =>
      obtain ⟨texts, outside, helapses, hres⟩ := hboot.trans (resume_printed site (g.load program) .nothing m')
      rw [hres]
      split
      · exact ⟨texts, m.ledger, outside, helapses, rfl⟩
      · exact ⟨texts, _, outside, helapses, rfl⟩

theorem bootKernel_told (site : Site ν) (m : Machine ν) :
    ∃ told ledger outside, m.Elapses outside ∧ (bootKernel site m).2 = { m with told, ledger, outside } := by
  obtain ⟨texts, ledger, outside, helapses, h⟩ := bootKernel_printed site m
  exact ⟨_, ledger, outside, helapses, h⟩

/-- A kernel that has booted waits. -/
theorem bootKernel_waits (h : (bootKernel site m).1 = .ok g) : g.Waits := by
  unfold bootKernel at h
  split at h
  · cases h
  · next g' m' hb =>
    dsimp only at h
    split at h
    · cases h
    · next program _ =>
      split at h
      · cases h
      · next hy =>
        cases h
        unfold firstYield at hy
        split at hy
        · next w hr => exact (Guest.resume_yields hr).1
        · cases hy
        · cases hy

/-- A start changes a machine only if it is stopped. -/
theorem start_sound (h : m.Sound) : (start site m).2.Sound := by
  unfold start
  split
  · exact h
  · next hs =>
    obtain ⟨hm, hw⟩ := h.stopped (Decidable.not_not.1 hs)
    obtain ⟨told, ledger, outside, -, hboot⟩ := bootKernel_told site { m with ledger := { m.ledger with
      worldTime := site.worldTime m.outside, started := site.worldTime m.outside } }
    dsimp only
    split
    · next g m' hb =>
      have hg : g.Waits := bootKernel_waits (by rw [hb])
      rw [hb] at hboot
      subst hboot
      show Lifecycle.Sound { m.lifecycle with state := .suspended, guest := some g }
      rw [hm]
      exact .resting (.inl rfl) hg trivial hw
    · next f m' hb =>
      rw [hb] at hboot
      subst hboot
      exact h

theorem receive_sound (msg : Message) (h : m.Sound) : (receive site msg m).2.Sound := by
  have hkept (m' : Machine ν) (hm : m'.lifecycle = m.lifecycle) : m'.Sound := by
    rw [Sound, hm]
    exact h
  exact handle_of msg h (fun s => hkept _ (signal_lifecycle s m)) (start_sound h) (stop_sound h)

/-! ## Synchronized calls -/

theorem failCall_sound (h : m.Free g) (f : Fault) : (m.failCall f).Sound := by
  unfold failCall
  split <;> exact (h.tell _).crash_sound _

/-- A call leaves the guest free for what has become of it. -/
theorem Called.free {m' : Machine ν} (h : m.Called m') (hm : m.Free g) (g' : Guest) :
    Free { m' with guest := some g' } g' := by
  rcases m' with ⟨state, guest, task, epoch, waiting, inside, _⟩
  rcases h with h | h
  all_goals
    rw [lifecycle, lifecycle, Lifecycle.mk.injEq] at h
    obtain ⟨-, -, rfl, rfl, rfl, rfl⟩ := h
    exact ⟨rfl, hm.task, hm.inside, hm.void⟩

/-- What the call that the kernel asked for leaves: the guest waits, with the result if there is one. -/
theorem invokePending_free (site : Site ν) (h : m.Free g) (hg : g.Waits) (hs : m.state = .running) :
    ∃ g', (invokePending site m).2.Free g' ∧ g'.Waits ∧
      ((invokePending site m).1 = .ok () → ∃ items, g'.pending = some (.list items)) := by
  have hcalled := invoke_called site g (.inl hs)
  unfold invokePending
  rw [h.guest]
  refine ⟨_, hcalled.free h _, ?_, Guest.invoke_ok⟩
  rw [Guest.Waits, Guest.invoke_kernel]
  exact hg

/-- The call is made while the world is held still, and the machine goes on or is torn down. -/
theorem synchronize_sound (h : m.Sound) (hs : m.state = .synchronizedCall) : (synchronize site m).Sound := by
  obtain ⟨g, hfree, hg, -⟩ := h.free_call hs
  obtain ⟨g', hfree', hg', hpending⟩ := invokePending_free site (m := { m with state := .running }) (g := g)
    ⟨hfree.guest, hfree.task, hfree.inside, hfree.void⟩ hg rfl
  have hinside : ¬m.inside.isSome := by
    rw [hfree.inside]
    exact Bool.false_ne_true
  unfold synchronize
  rw [if_neg hinside]
  dsimp only
  split
  · exact hfree'.close_sound
  · split
    · next hr => exact hfree'.schedule_sound (.inr rfl) hg' (hpending hr)
    · exact failCall_sound hfree' _

theorem invokePending_some (site : Site ν) (hg : m.guest = some g) : invokePending site m =
    ((g.invoke (host site) m).1, { (g.invoke (host site) m).2.2 with guest := some (g.invoke (host site) m).2.1 }) := by
  unfold invokePending
  rw [hg]

/-- How a machine goes on after the call of its guest: it is to be stopped, it has the result, or the call has failed.
-/
theorem synchronize_free (site : Site ν) (hi : m.inside = none) (hg : m.guest = some g) :
    ∃ m₁ m₂ : Machine ν, m₁ = { m with state := .running } ∧
      { (g.invoke (host site) m₁).2.2 with guest := some (g.invoke (host site) m₁).2.1 } = m₂ ∧
      (synchronize site m = m₂.close.tell .marked ∨
        (g.invoke (host site) m₁).1 = .ok () ∧ synchronize site m = m₂.schedule .synchronizedReturn ∨
        ∃ f, synchronize site m = m₂.failCall f) := by
  have hinside : ¬m.inside.isSome := by
    rw [hi]
    exact Bool.false_ne_true
  refine ⟨_, _, rfl, rfl, ?_⟩
  unfold synchronize
  rw [if_neg hinside, invokePending_some (m := { m with state := .running }) site hg]
  dsimp only
  split
  · exact .inl rfl
  · split
    · next hr => exact .inr (.inl ⟨hr, rfl⟩)
    · exact .inr (.inr ⟨_, rfl⟩)

/-! ## Updates -/

/-- An update goes on with a sound machine, which is stopped if it reboots and makes a call only if it has one. -/
theorem Advanced.sound {a : Action} {m' : Machine ν} (hm : m.Advanced a m') (h : m.Sound) :
    m'.Sound ∧ (a = .reboot → m'.state = .stopped) ∧ (a = .call → m'.state = .synchronizedCall) := by
  cases hm with
  | kept hs => exact ⟨h, nofun, nofun⟩
  | resumed hs =>
    obtain ⟨g, hfree, hg, -⟩ := h.free (hs.imp_right (.imp_right .inl))
    exact ⟨hfree.schedule_sound (.inl rfl) hg trivial, nofun, nofun⟩
  | returned hs =>
    obtain ⟨g, hfree, hg, hp⟩ := h.free (.inr (.inr (.inr (.inr hs))))
    rw [hs] at hp
    exact ⟨hfree.schedule_sound (.inr rfl) hg hp, nofun, nofun⟩
  | reboots hs => exact ⟨h.reboot hs, fun _ => rfl, nofun⟩
  | calls hs => exact ⟨h, nofun, fun _ => hs⟩

/-- Whether an update announces the end of a run. -/
def ended (m : Machine ν) : Bool :=
  m.announced && (m.state = .stopped || m.state = .rebooting)

/-- The machine once an update has noted the time and whether a run has ended. -/
def noted (site : Site ν) (m : Machine ν) : Machine ν :=
  { m with
    ledger := { m.ledger with worldTime := site.worldTime m.outside }
    lastUpdate := site.now m.outside
    updated := m.updated || m.state ≠ .stopped
    announced := m.announced && !m.ended }

/-- The machine once an update has brought its displays up to date. -/
def shown (site : Site ν) (ended : Bool) (m : Machine ν) : Machine ν :=
  showMessage site m.takeMessage.1 (announceEnd site ended m.takeMessage.2)

theorem update_noted (site : Site ν) (m : Machine ν) : update site m =
    perform site (advance (noted site m)).1 (shown site m.ended (advance (noted site m)).2) := rfl

/-- Displays and announcements are all that this changes, and the message is gone. -/
theorem shown_told (site : Site ν) (ended : Bool) (m : Machine ν) :
    ∃ message told, shown site ended m = { m with message, told } := by
  have htake : ∃ message, m.takeMessage.2 = { m with message } := by
    unfold takeMessage
    split
    · exact ⟨none, rfl⟩
    · exact ⟨m.message, rfl⟩
  obtain ⟨message, htake⟩ := htake
  rw [shown, htake]
  cases ended <;> cases m.takeMessage.1 <;> exact ⟨message, _, rfl⟩

theorem shown_lifecycle (ended : Bool) (m : Machine ν) : (shown site ended m).lifecycle = m.lifecycle := by
  obtain ⟨message, told, h⟩ := shown_told site ended m
  rw [h]
  rfl

theorem perform_sound {action : Action} (h : m.Sound) (hr : action = .reboot → m.state = .stopped)
    (hc : action = .call → m.state = .synchronizedCall) : (perform site action m).Sound := by
  cases action with
  | nothing => exact h
  | reboot => exact start_sound (h.close (congrArg Lifecycle.inside (h.stopped (hr rfl)).1))
  | call => exact synchronize_sound h (hc rfl)

/-- One tick keeps a machine sound. -/
theorem update_sound (h : m.Sound) : (update site m).Sound := by
  obtain ⟨hm, hr, hc⟩ := (advance_advanced (noted site m)).sound h
  have hshown := @shown_lifecycle ν site m.ended (advance (noted site m)).2
  rw [update_noted]
  refine perform_sound ?_ (fun ha => ?_) fun ha => ?_
  · rw [Sound, hshown]
    exact hm
  · exact (congrArg Lifecycle.state hshown).trans (hr ha)
  · exact (congrArg Lifecycle.state hshown).trans (hc ha)

end VirtualComputer.Machine
