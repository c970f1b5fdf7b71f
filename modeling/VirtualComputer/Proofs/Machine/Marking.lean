import VirtualComputer.Proofs.Machine.Telling

/-!
# What needs saving

A machine says that it needs saving once when a run begins and once when it ends, whether the guest, a call or the
machine itself has ended it.  Only the end of a run that somebody outside has asked to stop is passed over in silence
(`runs_marked`): the stop of a machine that rests, a task that finds the stop requested, and a `yield` that comes after
it.
-/

namespace VirtualComputer

open Machine

/-- Whether an event says that the machine needs saving. -/
def Event.isMark : Event → Bool
  | .marked => true
  | _ => false

namespace Machine

variable {ν : Type} {site : Site ν} {m m' : Machine ν} {n : ℕ} {g : Guest}

/-! ## Marks -/

/-- How often a machine has said that it needs saving. -/
def marks (m : Machine ν) : ℕ :=
  m.told.countP Event.isMark

theorem tellAll_marks (es : List Event) (m : Machine ν) : (m.tellAll es).marks = m.marks + es.countP Event.isMark :=
  List.countP_append

theorem tell_marked (m : Machine ν) : (m.tell .marked).marks = m.marks + 1 :=
  tellAll_marks [.marked] m

/-- What says something else leaves the marks as they are. -/
theorem tellAll_unmarked {es : List Event} (h : ∀ e ∈ es, e.isMark = false) (m : Machine ν) :
    (m.tellAll es).marks = m.marks := by
  rw [tellAll_marks, List.countP_eq_zero.2 fun e he => Bool.eq_false_iff.1 (h e he)]
  rfl

theorem tell_unmarked (e : Event) (h : e.isMark = false) (m : Machine ν) : (m.tell e).marks = m.marks :=
  tellAll_unmarked (List.forall_mem_singleton.2 h) m

theorem Printed.marks (h : m.Printed m') : m'.marks = m.marks := by
  obtain ⟨texts, outside, -, rfl⟩ := h
  refine tellAll_unmarked (fun e he => ?_) m
  obtain ⟨text, -, rfl⟩ := List.mem_map.1 he
  rfl

theorem close_marks (m : Machine ν) : m.close.marks = m.marks := by
  unfold close
  dsimp only
  split <;> rfl

theorem crash_marked (message : String) (m : Machine ν) : (m.crash message).marks = m.marks + 1 :=
  (tell_marked _).trans (congrArg (· + 1) (close_marks { m with message := some message }))

theorem schedule_marks (next : State) (m : Machine ν) : (m.schedule next).marks = m.marks := by
  unfold schedule
  split
  · exact tell_unmarked (.noticed _) rfl m
  · rfl

theorem signal_marks (s : Signal) (m : Machine ν) : (m.signal s).2.marks = m.marks := by
  unfold signal
  split <;> rfl

theorem stop_marks (m : Machine ν) : m.stop.2.marks = m.marks := by
  rcases m.stop_leaves with h | h | h <;> rw [h]
  · rfl
  · exact close_marks m

/-! ### Calls -/

theorem grant_marks (r : Request) (m : Machine ν) : (m.grant r).2.marks = m.marks := by
  cases r with
  | signal s => exact signal_marks s m
  | receive msg =>
    exact handle_of (P := fun m' => m'.marks = m.marks) msg rfl (fun s => signal_marks s m) rfl (stop_marks m)

theorem converse_marks : ∀ (x : Exchange ν) (m : Machine ν), (converse x m).2.marks = m.marks
  | .answer _ _, _ => rfl
  | .request r next, m => by
    rw [converse]
    refine (converse_marks (next (m.grant r).1) _).trans ?_
    exact (tell_unmarked (.requested _ _) rfl _).trans (grant_marks r m)

theorem marks_of_reaches (h : (host site).Reaches m n m') : m'.marks = m.marks := by
  induction h with
  | refl => rfl
  | print _ text ih => exact (tell_unmarked (.printed text) rfl _).trans ih
  | send _ target method args ih =>
    exact (converse_marks _ _).trans ((tell_unmarked (.called target method args) rfl _).trans ih)
  | later _ reader ih => exact (later_printed site reader _).marks.trans ih

theorem failCall_marked (f : Fault) (m : Machine ν) : (m.failCall f).marks = m.marks + 1 := by
  unfold failCall
  split <;> exact (crash_marked _ _).trans (congrArg (· + 1) (tell_unmarked (.noticed _) rfl m))

/-! ### Tasks -/

theorem Taken.marks (h : m.Taken m') : m'.marks = m.marks := by
  cases h with
  | void | parked | entered => rfl
  | closed => exact close_marks m
  | refused n queue => exact (close_marks _).trans (tell_unmarked (.noticed _) rfl { m with queue })

theorem Granted.marks {w : Wish} (h : m.Granted w m') : m'.marks = m.marks := by
  cases h with
  | asleep | idle | calls => rfl
  | resumed => exact schedule_marks _ m
  | closed | reboots => exact close_marks m

/-- A machine that is to be stopped is torn down at the next `yield`, without a mark. -/
theorem react_stopping (site : Site ν) (w : Wish) (hs : m.state = .stopping) :
    (react site (.ok (.yielded w)) m).marks = m.marks := by
  rw [react, if_pos hs]
  exact close_marks m

/-- Whatever else a resume comes to is marked. -/
theorem Reacted.marked {r : Except Fault Progress} (h : m.Reacted r m')
    (hs : m.state = .stopping → ∀ w, r ≠ .ok (.yielded w)) : m'.marks = m.marks + 1 := by
  cases h with
  | @stopped w hstop => exact absurd rfl (hs hstop w)
  | granted _ hgranted => rw [tell_marked, hgranted.marks]
  | ended _ notices message =>
    have hnoticed : (m.tellAll (notices.map .noticed)).marks = m.marks := by
      refine tellAll_unmarked (fun e he => ?_) m
      obtain ⟨n, -, rfl⟩ := List.mem_map.1 he
      rfl
    rw [tell_marked, close_marks]
    exact congrArg (· + 1) hnoticed

/-- A resume leaves no mark before it is reacted to. -/
theorem resumed_unmarked (site : Site ν) {d : Delivery} (hi : m.inside = some d) (hg : m.guest = some g) :
    ∃ m' : Machine ν, finishTask site m = react site (g.resume (host site) site.steps d m).1 m' ∧
      m'.state = m.state ∧ m'.marks = m.marks := by
  obtain ⟨texts, outside, hf⟩ := finishTask_resumed site hi hg
  exact ⟨_, hf, rfl, (Printed.of_texts texts m).marks⟩

/-! ### Ticks -/

theorem Advanced.marks {a : Action} (h : m.Advanced a m') : m'.marks = m.marks := by
  cases h with
  | kept | reboots | calls => rfl
  | resumed | returned => exact schedule_marks _ m

theorem announceEnd_marks (site : Site ν) (ended : Bool) (m : Machine ν) :
    (announceEnd site ended m).marks = m.marks := by
  unfold announceEnd
  split
  · refine tellAll_unmarked (List.forall_mem_cons.2 ⟨rfl, fun e he => ?_⟩) m
    obtain ⟨i, hi, rfl⟩ := List.mem_mapIdx.1 he
    rfl
  · rfl

theorem showMessage_marks (site : Site ν) (message : Option String) (m : Machine ν) :
    (showMessage site message m).marks = m.marks := by
  unfold showMessage
  split
  · rfl
  · refine tellAll_unmarked (fun e he => ?_) m
    obtain ⟨es, hes, he⟩ := List.mem_flatten.1 he
    obtain ⟨i, hi, rfl⟩ := List.mem_mapIdx.1 hes
    obtain ⟨call, -, rfl⟩ := List.mem_map.1 he
    rfl

theorem shown_marks (site : Site ν) (ended : Bool) (m : Machine ν) : (shown site ended m).marks = m.marks := by
  have htake : m.takeMessage.2.marks = m.marks := by
    unfold takeMessage
    split <;> rfl
  exact (showMessage_marks site _ _).trans ((announceEnd_marks site ended _).trans htake)

/-! ## Beginnings and ends -/

/-- A run has begun: there was none, and now there is a guest that waits. -/
def BeginsRun (m m' : Machine ν) : Prop :=
  (m.state = .stopped ∨ m.state = .rebooting) ∧ m'.state = .suspended

/-- A run has ended, or will not be started again. -/
def EndsRun (m m' : Machine ν) : Prop :=
  m.state ≠ .stopped ∧ m'.state ≠ m.state ∧ (m'.state = .stopped ∨ m'.state = .rebooting)

/-- If a run has begun or ended, it has been marked. -/
def Marked (m m' : Machine ν) : Prop :=
  m.BeginsRun m' ∨ m.EndsRun m' → m'.marks = m.marks + 1

theorem Marked.of_state (h : m'.state = m.state) : m.Marked m' := by
  rintro (⟨hs, hs'⟩ | ⟨-, hne, -⟩)
  · rw [h] at hs'
    rcases hs with hs | hs <;> cases hs.symm.trans hs'
  · exact absurd h hne

/-- A run that goes on needs no mark. -/
theorem Marked.of_run (hs : m.state ≠ .stopped ∧ m.state ≠ .rebooting)
    (hs' : m'.state ≠ .stopped ∧ m'.state ≠ .rebooting) : m.Marked m' := by
  rintro (⟨h, -⟩ | ⟨-, -, h⟩)
  · exact (h.elim hs.1 hs.2).elim
  · exact (h.elim hs'.1 hs'.2).elim

theorem schedule_state (next : State) (m : Machine ν) :
    (m.schedule next).state = next ∨ (m.schedule next).state = m.state := by
  unfold schedule
  split
  · exact .inr rfl
  · exact .inl rfl

/-- A start marks the run that begins, and nothing if it fails. -/
theorem start_marks (site : Site ν) (m : Machine ν) : (m.start site).2.state = .suspended ∧
      (m.start site).2.marks = m.marks + 1 ∨ (m.start site).2.state = m.state ∧ (m.start site).2.marks = m.marks := by
  rcases start_leaves site m with h | ⟨-, texts, ledger, outside, -, ⟨g, h⟩ | ⟨f, h⟩⟩ <;> rw [h]
  · exact .inr ⟨rfl, rfl⟩
  · have hprinted : (m.tellAll (texts.map .printed)).marks = m.marks := (Printed.of_texts texts m).marks
    refine .inl ⟨rfl, (tellAll_marks [.announced .started, .marked] _).trans ?_⟩
    exact congrArg (· + 1) hprinted
  · have hprinted : (m.tellAll (texts.map .printed)).marks = m.marks := (Printed.of_texts texts m).marks
    exact .inr ⟨rfl, (tell_unmarked (.noticed _) rfl _).trans hprinted⟩

theorem start_marked (site : Site ν) (m : Machine ν) : m.Marked (m.start site).2 := by
  rcases start_marks site m with ⟨-, hmarks⟩ | ⟨hstate, -⟩
  · exact fun _ => hmarks
  · exact .of_state hstate

/-- A call that ends the run marks it. -/
theorem synchronize_marked (h : m.Regular) (hs : m.state = .synchronizedCall) : m.Marked (synchronize site m) := by
  obtain ⟨g, hfree⟩ := h.free_call hs
  obtain ⟨m₁, m₂, hm₁, hm₂, hsync⟩ := synchronize_free site hfree.inside hfree.guest
  obtain ⟨n, -, hreaches⟩ := g.invoke_reaches (host site) m₁
  have hmarks : m₂.marks = m.marks := by
    rw [← hm₂]
    refine (marks_of_reaches hreaches).trans ?_
    rw [hm₁]
    rfl
  have hcalling : m₂.Calling := by
    rw [← hm₂]
    exact (invoke_called site g (.inl (by rw [hm₁]))).calling (.inl (by rw [hm₁]))
  rcases hsync with hsync | ⟨-, hsync⟩ | ⟨f, hsync⟩ <;> rw [hsync]
  · intro _
    rw [tell_marked, close_marks, hmarks]
  · refine .of_run (by rw [hs]; decide) ?_
    rcases schedule_state .synchronizedReturn m₂ with hnext | hnext <;> rw [hnext]
    · decide
    · rcases hcalling with hc | hc <;> rw [hc] <;> decide
  · intro _
    rw [failCall_marked, hmarks]

/-- Without a call or a start, a tick at most queues a resume. -/
theorem Advanced.marked (h : m.Advanced .nothing m') : m.Marked m' := by
  have hschedule {next : State} (hrun : m.state ≠ .stopped ∧ m.state ≠ .rebooting)
      (hnext : next ≠ .stopped ∧ next ≠ .rebooting) : m.Marked (m.schedule next) := by
    rcases schedule_state next m with hs | hs
    · rw [← hs] at hnext
      exact .of_run hrun hnext
    · exact .of_state hs
  cases h with
  | kept => exact .of_state rfl
  | resumed hs => exact hschedule (by rcases hs with hs | hs | hs <;> rw [hs] <;> decide) (by decide)
  | returned hs => exact hschedule (by rw [hs]; decide) (by decide)

/-- An update marks what it begins or ends, unless it fails to start the machine again. -/
theorem update_marked (h : m.Regular) (hs : m.state = .rebooting → (update site m).state ≠ .stopped) :
    m.Marked (update site m) := by
  obtain ⟨hregular, hreboot, hcall⟩ := (advance_advanced (noted site m)).regular h
  obtain ⟨m', hm'⟩ : ∃ m', shown site m.ended (advance (noted site m)).2 = m' := ⟨_, rfl⟩
  have hlifecycle : m'.lifecycle = (advance (noted site m)).2.lifecycle := hm' ▸ shown_lifecycle _ _
  have hstate : m'.state = (advance (noted site m)).2.state := congrArg Lifecycle.state hlifecycle
  have hmarks : m'.marks = m.marks := by
    rw [← hm', shown_marks]
    exact (advance_advanced (noted site m)).marks
  rw [update_noted, hm'] at hs ⊢
  cases ha : (advance (noted site m)).1 with
  | nothing =>
    have hadvanced := advance_advanced (noted site m)
    rw [ha] at hadvanced
    have hadvance := hadvanced.marked
    rw [Marked, BeginsRun, EndsRun, hadvanced.marks, ← hstate] at hadvance
    rw [perform, Marked, BeginsRun, EndsRun, hmarks]
    exact hadvance
  | reboot =>
    have hrebooting : m.state = .rebooting := (advance_advanced (noted site m)).action.1 ha
    rw [ha] at hs
    rcases start_marks site m'.close with ⟨-, hstarted⟩ | ⟨hfailed, -⟩
    · exact fun _ => hstarted.trans (congrArg (· + 1) ((close_marks m').trans hmarks))
    · exact absurd (hfailed.trans (close_state m')) (hs hrebooting)
  | call =>
    have hcalls : m'.state = .synchronizedCall := hstate.trans (hcall ha)
    have hm : m.state = .synchronizedCall := (advance_advanced (noted site m)).action.2 ha
    have hsync := @synchronize_marked ν site m' (hregular.of_eq hlifecycle) hcalls
    rw [Marked, BeginsRun, EndsRun, hcalls, hmarks] at hsync
    rw [perform, Marked, BeginsRun, EndsRun, hm]
    exact hsync

/-- A task that is due, and finds nobody waiting for a stop, resumes the guest or is put off. -/
theorem beginTask_marked {epoch : ℕ} (hs : m.state ≠ .stopping)
    (hdue : m.epoch = epoch → (m.state = .yielded ∨ m.state = .synchronizedReturn ∨ m.state = .stopping) ∧
      m.guest.isSome) : m.Marked (beginTask site epoch m) := by
  by_cases he : m.epoch = epoch
  · obtain ⟨hstate, hg⟩ := hdue he
    have hrun : m.state ≠ .stopped ∧ m.state ≠ .rebooting := by
      rcases hstate with hstate | hstate | hstate <;> rw [hstate] <;> decide
    refine .of_run hrun ?_
    by_cases hst : isStalled site m
    · rw [beginTask_stalled he hs hst]
      unfold park
      dsimp only
      split <;> decide
    · rcases hstate with hstate | hstate | hstate
      · rw [beginTask_yielded he hstate hst hg]
        exact ⟨nofun, nofun⟩
      · rw [beginTask_return he hstate hst hg]
        exact ⟨nofun, nofun⟩
      · exact absurd hstate hs
  · rw [beginTask_void he]
    exact .of_state rfl

end Machine

/-! ## Stops -/

/-- Whether an operation heeds a stop: it is the stop, or it belongs to a task that finds the machine about to stop and
ends the run for no other reason. -/
def Operation.Heeds {ν : Type} (site : Site ν) : Operation ν → Machine ν → Prop
  | .stop, _ => True
  | .receive msg, _ => msg.name = "computer.stop"
  | .beginTask _, m => m.state = .stopping
  | .finishTask, m => m.state = .stopping ∧ ∃ d g w, m.inside = some d ∧ m.guest = some g ∧
    (g.resume (host site) site.steps d m).1 = .ok (.yielded w)
  | _, _ => False

namespace Operation

variable {ν : Type} {site : Site ν} {m : Machine ν}

/-- Any other message is a signal or a start, or nothing. -/
theorem receive_marked (site : Site ν) (m : Machine ν) {msg : Message} (h : msg.name ≠ "computer.stop") :
    m.Marked ((receive msg).perform site m) := by
  have hsignal (s : Signal) : m.Marked (m.signal s).2 :=
    .of_state (congrArg Lifecycle.state (signal_lifecycle s m))
  have hrelay (s : Signal) : m.Marked (m.relay s).2 :=
    .of_state (congrArg Lifecycle.state (relay_lifecycle s m))
  rw [perform, Machine.receive]
  unfold handle
  split
  · exact hrelay _
  · exact hrelay _
  · exact hrelay _
  · split
    · exact hsignal _
    · exact .of_state rfl
  · exact start_marked site m
  · next hstop => exact absurd hstop h
  · exact .of_state rfl
  · exact .of_state rfl

theorem receive_stop (site : Site ν) (m : Machine ν) {msg : Message} (h : msg.name = "computer.stop") :
    (receive msg).perform site m = m.stop.2 := by
  rw [perform, Machine.receive, handle, h]
  rfl

/-- What heeds a stop marks nothing. -/
theorem heeds_unmarked (op : Operation ν) (hh : op.Heeds site m) : (op.perform site m).marks = m.marks := by
  cases op with
  | stop => exact stop_marks m
  | receive msg =>
    rw [receive_stop site m hh]
    exact stop_marks m
  | beginTask epoch => exact (beginTask_taken site epoch { m with waiting := m.waiting.erase epoch }).marks
  | finishTask =>
    obtain ⟨hs, d, g, w, hi, hg, hr⟩ := hh
    obtain ⟨m', hf, hstate, hmarks⟩ := resumed_unmarked site hi hg
    rw [perform, hf, hr, react_stopping site w (hstate.trans hs), hmarks]
  | start | signal | update | deferred | save | load | elsewhere => exact hh.elim

/-- A stop begins no run. -/
theorem heeds_begins_not (op : Operation ν) (hh : op.Heeds site m) : ¬m.BeginsRun (op.perform site m) := by
  have hstop : ¬m.BeginsRun m.stop.2 := by
    rintro ⟨hs, hs'⟩
    unfold Machine.stop at hs'
    rcases hs with hs | hs <;> rw [hs] at hs'
    · cases hs.symm.trans hs'
    · split at hs'
      · cases hs.symm.trans hs'
      · split at hs'
        · cases hs.symm.trans hs'
        · split at hs'
          · cases hs'
          · cases (close_state m).symm.trans hs'
  have hnone (hs : m.state = .stopping) : ¬m.BeginsRun (op.perform site m) := by
    rintro ⟨hrest, -⟩
    rcases hrest with hrest | hrest <;> cases hs.symm.trans hrest
  cases op with
  | stop => exact hstop
  | receive msg =>
    rw [receive_stop site m hh]
    exact hstop
  | beginTask epoch => exact hnone hh
  | finishTask => exact hnone hh.1
  | start | signal | update | deferred | save | load | elsewhere => exact hh.elim

/-- What heeds no stop marks what it begins or ends. -/
theorem marked (op : Operation ν) (h : m.Regular) (ha : op.Allowed m) (hl : ¬op.Loads) (hh : ¬op.Heeds site m)
    (hs : op = .update → m.state = .rebooting → (op.perform site m).state ≠ .stopped) :
    m.Marked (op.perform site m) := by
  cases op with
  | start => exact start_marked site m
  | stop => exact absurd trivial hh
  | signal s => exact .of_state (congrArg Lifecycle.state (signal_lifecycle s m))
  | update => exact update_marked h (hs rfl)
  | deferred =>
    obtain ⟨g, hfree⟩ := h.free_call ha
    exact .of_state (congrArg Lifecycle.state (deferred_lifecycle hfree.inside ha))
  | receive msg => exact receive_marked site m hh
  | save => exact .of_state (congrArg Lifecycle.state (save_told m).lifecycle)
  | load r => exact absurd trivial hl
  | beginTask epoch =>
    exact beginTask_marked (m := { m with waiting := m.waiting.erase epoch }) hh fun he => h.due ha.1 (he ▸ ha.2)
  | finishTask =>
    cases hi : m.inside with
    | none => exact .of_state (congrArg Machine.state (finishTask_idle site hi))
    | some d =>
      obtain ⟨-, -, g, hg⟩ := h.resuming hi
      obtain ⟨m', hf, hstate, hmarks⟩ := resumed_unmarked site hi hg
      intro _
      rw [perform, hf, (react_reacted site _ m').marked, hmarks]
      exact fun hstop w hr => hh ⟨hstate.symm.trans hstop, d, g, w, hi, hg, hr⟩
  | elsewhere outside => exact .of_state rfl

end Operation

/-- Every beginning of a run is marked, and every end is marked unless the operation that ends it heeds a stop. -/
theorem runs_marked {ν : Type} {site : Site ν} {catalog : Catalog} {outside : ν} {ops : List (Operation ν)}
    (ha : Admits site ops (fresh site catalog outside)) (op : Operation ν)
    (hop : op.Allowed (after site ops (fresh site catalog outside))) (hl : ¬op.Loads) :
    let m := after site ops (fresh site catalog outside)
    let m' := op.perform site m
    (m.BeginsRun m' → m'.marks = m.marks + 1) ∧
      (m.EndsRun m' → ¬(op = .update ∧ m.state = .rebooting) →
        (op.Heeds site m → m'.marks = m.marks) ∧ (¬op.Heeds site m → m'.marks = m.marks + 1)) := by
  have h := ha.regular (fresh_regular site catalog outside)
  intro m m'
  refine ⟨fun hbegins => ?_, fun hends hstart => ⟨op.heeds_unmarked, fun hh => ?_⟩⟩
  · have hh : ¬op.Heeds site m := fun hh => op.heeds_begins_not hh hbegins
    have hbegun : m'.state ≠ .stopped := by
      rw [hbegins.2]
      nofun
    exact op.marked h hop hl hh (fun _ _ => hbegun) (.inl hbegins)
  · exact op.marked h hop hl hh (fun hu hs => absurd ⟨hu, hs⟩ hstart) (.inr hends)

/-- A machine that rests. -/
def restingMachine : Machine Console :=
  fresh consoleSite ⟨none, Catalog.defaultBoot, "yield 60", []⟩ ⟨0, 0⟩

/-- Its run is marked when it begins, but not when it is stopped. -/
theorem resting_unmarked : (after consoleSite [.start] restingMachine).marks = restingMachine.marks + 1 ∧
    (after consoleSite [.start, .stop] restingMachine).state = .stopped ∧
    (after consoleSite [.start, .stop] restingMachine).marks = (after consoleSite [.start] restingMachine).marks := by
  have hnew : Admits consoleSite [] restingMachine := trivial
  have hadmits : Admits consoleSite [.start] restingMachine := ⟨trivial, trivial⟩
  have hbegins : restingMachine.BeginsRun (after consoleSite [.start] restingMachine) := ⟨.inl rfl, by decide +kernel⟩
  have hstopped : (after consoleSite [.start, .stop] restingMachine).state = .stopped := by decide +kernel
  have hends : (after consoleSite [.start] restingMachine).EndsRun
      (after consoleSite [.start, .stop] restingMachine) := by
    have hs := hbegins.2
    refine ⟨?_, ?_, .inl hstopped⟩
    · rw [hs]
      nofun
    · rw [hstopped, hs]
      nofun
  exact ⟨(runs_marked hnew .start trivial nofun).1 hbegins, hstopped,
    ((runs_marked hadmits .stop trivial nofun).2 hends nofun).1 trivial⟩

end VirtualComputer
