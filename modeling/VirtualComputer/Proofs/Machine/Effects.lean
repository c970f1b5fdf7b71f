import VirtualComputer.Machine.Update

/-!
# What operations come to

How a machine goes on depends on its state, its queue and its guest, but it has few ways to go: a resume is queued, the
run rests or ends, or all stays as it is.  The ways of each part of an operation are listed here, and what such a part
keeps is proved by the cases of its list.

- A message is a signal, a start, a stop or nothing (`handle_of`).
- A task that begins is void, parked or entered, or ends the run (`beginTask_taken`).
- A resume is followed by what the kernel wants (`grantWish_granted`) or by the end of the run (`react_reacted`).
- A tick queues a resume, or says what is to be done instead (`advance_advanced`).
-/

namespace VirtualComputer.Machine

variable {ν : Type} {site : Site ν} {m : Machine ν}

/-! ## Messages and stops -/

/-- What holds of a machine as it is, and after signals, starts and stops, holds after a message. -/
theorem handle_of {P : Machine ν → Prop} {start : Machine ν → Bool × Machine ν} (msg : Message) (h : P m)
    (hsignal : ∀ s, P (m.signal s).2) (hstart : P (start m).2) (hstop : P m.stop.2) : P (m.handle start msg).2 := by
  have hrelay (s : Signal) : P (m.relay s).2 := by
    unfold relay
    split
    · exact hsignal s
    · exact h
  unfold handle
  split
  · exact hrelay _
  · exact hrelay _
  · exact hrelay _
  · split
    · exact hsignal _
    · exact h
  · exact hstart
  · exact hstop
  · exact h
  · exact h

theorem stop_leaves (m : Machine ν) :
    m.stop.2 = m ∨ m.stop.2 = { m with state := .stopping } ∨ m.stop.2 = m.close := by
  unfold stop
  split
  · exact .inl rfl
  · split
    · exact .inl rfl
    · split
      · exact .inr (.inl rfl)
      · exact .inr (.inr rfl)

/-! ## Tasks -/

/-- What becomes of a machine when a worker takes a task. -/
inductive Taken (m : Machine ν) : Machine ν → Prop
  | void : Taken m m
  | closed : Taken m m.close
  | parked : Taken m m.park
  | entered (d : Delivery) (queue : SignalQueue) : Taken m { m with queue, state := .running, inside := some d }
  /-- There is nothing to resume. -/
  | refused (n : Notice) (queue : SignalQueue) : Taken m (close (tell (.noticed n) { m with queue }))

theorem enter_taken (d : Delivery) (queue : SignalQueue) (m : Machine ν) : m.Taken ({ m with queue }.enter d) := by
  unfold enter
  split
  · exact .entered d queue
  · exact .refused _ queue

theorem beginTask_taken (site : Site ν) (epoch : Nat) (m : Machine ν) : m.Taken (beginTask site epoch m) := by
  unfold beginTask
  split
  · exact .void
  · split
    · exact .closed
    · split
      · exact .parked
      · split
        · exact enter_taken _ m.queue.pop.2 m
        · exact enter_taken _ m.queue m
        · exact .refused _ m.queue

/-- What becomes of a machine whose kernel wants something. -/
inductive Granted (m : Machine ν) : Wish → Machine ν → Prop
  | asleep (seconds : Float) (wakeAt : Option Int) : Granted m (.sleep seconds) { m with state := .sleeping, wakeAt }
  | idle : Granted m .other { m with state := .suspended }
  /-- Signals wait. -/
  | resumed {w : Wish} (hw : w = .other ∨ ∃ seconds, w = .sleep seconds) : Granted m w (m.schedule .yielded)
  | calls : Granted m .call { m with state := .synchronizedCall }
  | closed : Granted m (.shutdown false) m.close
  | reboots : Granted m (.shutdown true) { m.close with state := .rebooting }

theorem grantWish_granted (site : Site ν) (w : Wish) (m : Machine ν) : m.Granted w (grantWish site w m) := by
  have horResume {w : Wish} {rest : Machine ν} (hw : w = .other ∨ ∃ seconds, w = .sleep seconds)
      (hrest : m.Granted w rest) : m.Granted w (orResume rest m) := by
    unfold orResume
    split
    · exact hrest
    · exact .resumed hw
  cases w with
  | sleep seconds => exact horResume (.inr ⟨seconds, rfl⟩) (.asleep seconds _)
  | call => exact .calls
  | shutdown reboot =>
    cases reboot
    · exact .closed
    · exact .reboots
  | other => exact horResume (.inl rfl) .idle

/-- What becomes of a machine whose guest has been resumed. -/
inductive Reacted (m : Machine ν) : Except Fault Progress → Machine ν → Prop
  /-- The machine was to be stopped. -/
  | stopped {w : Wish} (hs : m.state = .stopping) : Reacted m (.ok (.yielded w)) m.close
  | granted {w : Wish} {m' : Machine ν} (hs : m.state ≠ .stopping) (h : m.Granted w m') :
      Reacted m (.ok (.yielded w)) (m'.tell .marked)
  /-- The run is over. -/
  | ended {r : Except Fault Progress} (hr : ∀ w, r ≠ .ok (.yielded w)) (notices : List Notice)
      (message : Option String) : Reacted m r ({ m.tellAll (notices.map .noticed) with message }.close.tell .marked)

theorem react_reacted (site : Site ν) (r : Except Fault Progress) (m : Machine ν) : m.Reacted r (react site r m) := by
  have hquiet (message : Option String) (hr : ∀ w, r ≠ .ok (.yielded w)) :
      m.Reacted r ({ m with message }.close.tell .marked) := by
    have h := Reacted.ended (m := m) hr [] message
    rwa [List.map_nil, tellAll, List.append_nil] at h
  unfold react
  split
  · next w =>
    split
    · next hs => exact .stopped hs
    · next hs => exact .granted hs (grantWish_granted site w m)
  · exact hquiet m.message nofun
  · exact hquiet (some _) nofun
  · exact Reacted.ended (m := m) (r := .ok .left) nofun [.leftGuard] m.message
  · next f =>
    obtain ⟨notices, hnotices⟩ : ∃ notices : List Notice, (if isInner f then m.tell (.noticed (.resumeFailed f)) else
        m).tell (.noticed (.crashed f)) = m.tellAll (notices.map .noticed) := by
      split
      · exact ⟨[.resumeFailed f, .crashed f], by simp [tell, tellAll]⟩
      · exact ⟨[.crashed f], rfl⟩
    have h := Reacted.ended (m := m) (r := .error f) nofun notices (some (faultText f))
    rwa [← hnotices] at h

/-! ## Ticks -/

/-- How a tick moves a machine on. -/
inductive Advanced (m : Machine ν) : Action → Machine ν → Prop
  | kept (hs : m.state ≠ .synchronizedCall) : Advanced m .nothing m
  | resumed (hs : m.state = .suspended ∨ m.state = .sleeping ∨ m.state = .paused) :
      Advanced m .nothing (m.schedule .yielded)
  | returned (hs : m.state = .synchronizedReturnPaused) : Advanced m .nothing (m.schedule .synchronizedReturn)
  | reboots (hs : m.state = .rebooting) : Advanced m .reboot { m with state := .stopped }
  | calls (hs : m.state = .synchronizedCall) : Advanced m .call m

theorem advance_advanced (m : Machine ν) : m.Advanced (advance m).1 (advance m).2 := by
  have hkept {s : State} (hs : m.state = s) (hne : s ≠ .synchronizedCall) : m.Advanced .nothing m :=
    .kept (hs ▸ hne)
  unfold advance
  split
  · next hs => exact .reboots hs
  · next hs =>
    split
    · exact hkept hs nofun
    · exact .resumed (.inl hs)
  · next hs =>
    split
    · exact .resumed (.inr (.inl hs))
    · exact hkept hs nofun
  · next hs => exact .resumed (.inr (.inr hs))
  · next hs => exact .returned hs
  · next hs => exact .calls hs
  · next hs => exact .kept hs

end VirtualComputer.Machine
