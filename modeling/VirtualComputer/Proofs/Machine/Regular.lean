import VirtualComputer.Proofs.Machine.Records

/-!
# The phases of a machine, whatever it has loaded

A record may hold anything: a kernel that has come to an end, or no result where one is due.  What such a machine is
resumed with may fail, but it goes through the same phases as a sound one.  A lifecycle is regular if it is in one of
these phases, whatever the guest holds; all operations keep it so (`update_regular`, `load_regular` and so on).
-/

namespace VirtualComputer

/-- The phases of a lifecycle, without regard to what the guest holds. -/
inductive Lifecycle.Regular : Lifecycle → Prop
  /-- There is no guest. -/
  | empty {state : State} {epoch : Nat} {waiting : List Nat} (hs : state = .stopped ∨ state = .rebooting)
      (hw : Void epoch waiting) : Regular ⟨state, none, false, epoch, waiting, none⟩
  /-- The guest waits for an update. -/
  | resting {state : State} {g : Guest} {epoch : Nat} {waiting : List Nat} (hs : state.Resting)
      (hw : Void epoch waiting) : Regular ⟨state, some g, false, epoch, waiting, none⟩
  /-- The guest waits for a worker. -/
  | queued {state : State} {g : Guest} {epoch : Nat} {waiting : List Nat}
      (hs : state = .yielded ∨ state = .synchronizedReturn ∨ state = .stopping) (hw : Due epoch waiting) :
      Regular ⟨state, some g, true, epoch, waiting, none⟩
  /-- A worker is inside a resume. -/
  | busy {state : State} {g : Guest} {epoch : Nat} {waiting : List Nat} {d : Delivery}
      (hs : state = .running ∨ state = .stopping) (hw : Void epoch waiting) :
      Regular ⟨state, some g, true, epoch, waiting, some d⟩

def Machine.Regular {ν : Type} (m : Machine ν) : Prop :=
  m.lifecycle.Regular

/-- The tasks of the current epoch, those that wait for a worker and the one that a worker has. -/
def Machine.tasks {ν : Type} (m : Machine ν) : Nat :=
  m.waiting.count m.epoch + if m.inside.isSome then 1 else 0

namespace Machine

variable {ν : Type} {site : Site ν} {m m' : Machine ν} {g : Guest}

/-! ## What is known in each phase -/

theorem Sound.regular (h : m.Sound) : m.Regular := by
  rcases m with ⟨state, guest, task, epoch, waiting, inside, _⟩
  cases h with
  | empty hs hw => exact .empty hs hw
  | resting hs _ _ hw => exact .resting hs hw
  | queued hs _ _ hw => exact .queued hs hw
  | busy hs hw => exact .busy hs hw

/-- What has the same lifecycle is in the same phase. -/
theorem Regular.of_eq (h : m.Regular) (hl : m'.lifecycle = m.lifecycle) : m'.Regular := by
  rw [Regular, hl]
  exact h

/-- Without a run there is nothing in which a regular machine could be unsound. -/
theorem Regular.sound (h : m.Regular) (hs : m.state = .stopped) : m.Sound := by
  rcases m with ⟨state, guest, task, epoch, waiting, inside, _⟩
  cases hs
  cases h with
  | empty hs hw => exact .empty hs hw
  | resting hs => rcases hs with h | h | h | h | h <;> cases h
  | queued hs => rcases hs with h | h | h <;> cases h
  | busy hs => rcases hs with h | h <;> cases h

theorem Regular.guest_iff (h : m.Regular) : m.guest.isSome ↔ m.state ≠ .stopped ∧ m.state ≠ .rebooting := by
  rcases m with ⟨state, guest, task, epoch, waiting, inside, _⟩
  cases h with
  | empty hs _ => rcases hs with rfl | rfl <;> simp
  | resting hs _ => rcases hs with rfl | rfl | rfl | rfl | rfl <;> simp
  | queued hs _ => rcases hs with rfl | rfl | rfl <;> simp
  | busy hs _ => rcases hs with rfl | rfl <;> simp

theorem Regular.guest_none (h : m.Regular) (hs : m.state = .stopped ∨ m.state = .rebooting) : m.guest = none := by
  refine Option.not_isSome_iff_eq_none.1 fun hg => ?_
  rcases hs with hs | hs
  · exact (h.guest_iff.1 hg).1 hs
  · exact (h.guest_iff.1 hg).2 hs

/-- A machine without a guest has nothing outstanding. -/
theorem Regular.idle (h : m.Regular) (hg : m.guest = none) :
    m.task = false ∧ m.inside = none ∧ Void m.epoch m.waiting := by
  rcases m with ⟨state, guest, task, epoch, waiting, inside, _⟩
  cases hg
  cases h with
  | empty _ hw => exact ⟨rfl, rfl, hw⟩

/-- A machine that reboots may as well be stopped. -/
theorem Regular.reboot (h : m.Regular) (hs : m.state = .rebooting) : Regular { m with state := .stopped } := by
  have hg : m.guest = none := h.guest_none (.inr hs)
  obtain ⟨ht, hi, hw⟩ := h.idle hg
  show Lifecycle.Regular ⟨.stopped, m.guest, m.task, m.epoch, m.waiting, m.inside⟩
  rw [hg, ht, hi]
  exact .empty (.inl rfl) hw

/-- Nobody is about to resume a guest that rests. -/
theorem Regular.free (h : m.Regular) (hs : m.state.Resting) : ∃ g, m.Free g := by
  rcases m with ⟨state, guest, task, epoch, waiting, inside, _⟩
  cases h with
  | resting _ hw => exact ⟨_, rfl, rfl, rfl, hw⟩
  | empty hs' _ => rcases hs' with rfl | rfl <;> rcases hs with h | h | h | h | h <;> cases h
  | queued hs' _ => rcases hs' with rfl | rfl | rfl <;> rcases hs with h | h | h | h | h <;> cases h
  | busy hs' _ => rcases hs' with rfl | rfl <;> rcases hs with h | h | h | h | h <;> cases h

theorem Regular.free_call (h : m.Regular) (hs : m.state = .synchronizedCall) : ∃ g, m.Free g :=
  h.free (.inr (.inr (.inr (.inl hs))))

/-- A task of the current epoch waits only while the guest does. -/
theorem Regular.due (h : m.Regular) (hi : m.inside = none) (he : m.epoch ∈ m.waiting) :
    (m.state = .yielded ∨ m.state = .synchronizedReturn ∨ m.state = .stopping) ∧ m.guest.isSome := by
  have hvoid (hw : Void m.epoch m.waiting) : False := Nat.lt_irrefl _ (hw _ he)
  rcases m with ⟨state, guest, task, current, waiting, inside, _⟩
  cases h with
  | empty hs hw => exact (hvoid hw).elim
  | resting hs hw => exact (hvoid hw).elim
  | busy hs hw => cases hi
  | queued hs hw => exact ⟨hs, rfl⟩

/-- A worker is inside a resume only of a guest that no other task waits for. -/
theorem Regular.resuming (h : m.Regular) {d : Delivery} (hi : m.inside = some d) :
    (m.state = .running ∨ m.state = .stopping) ∧ Void m.epoch m.waiting ∧ ∃ g, m.guest = some g := by
  rcases m with ⟨state, guest, task, epoch, waiting, inside, _⟩
  cases h with
  | empty hs hw => cases hi
  | resting hs hw => cases hi
  | queued hs hw => cases hi
  | busy hs hw => exact ⟨hs, hw, _, rfl⟩

/-- While a task is outstanding that no worker has taken, it waits. -/
theorem Regular.awaited (h : m.Regular) (ht : m.task) (hi : m.inside = none) :
    (m.state = .yielded ∨ m.state = .synchronizedReturn ∨ m.state = .stopping) ∧ Due m.epoch m.waiting ∧
      ∃ g, m.guest = some g := by
  rcases m with ⟨state, guest, task, epoch, waiting, inside, _⟩
  cases h with
  | empty hs hw | resting hs hw => cases ht
  | busy hs hw => cases hi
  | queued hs hw => exact ⟨hs, hw, _, rfl⟩

/-- No task is of a later epoch. -/
theorem Regular.waiting_le (h : m.Regular) : ∀ e ∈ m.waiting, e ≤ m.epoch := by
  rcases m with ⟨state, guest, task, epoch, waiting, inside, _⟩
  cases h with
  | empty _ hw | resting _ hw | busy _ hw => exact fun e he => Nat.le_of_lt (hw e he)
  | queued _ hw => exact hw.2

/-- There is at most one task of the epoch, and the machine knows whether there is. -/
theorem Regular.tasks_eq (h : m.Regular) : m.tasks = if m.task then 1 else 0 := by
  rcases m with ⟨state, guest, task, epoch, waiting, inside, _⟩
  cases h with
  | empty _ hw | resting _ hw => exact hw.count
  | queued _ hw => exact hw.1
  | busy _ hw => exact congrArg (· + 1) hw.count

theorem Regular.inside_states (h : m.Regular) :
    (m.inside.isSome → m.state = .running ∨ m.state = .stopping) ∧ (m.state = .running → m.inside.isSome) := by
  rcases m with ⟨state, guest, task, epoch, waiting, inside, _⟩
  cases h with
  | empty hs _ => rcases hs with rfl | rfl <;> exact ⟨nofun, nofun⟩
  | resting hs _ => rcases hs with rfl | rfl | rfl | rfl | rfl <;> exact ⟨nofun, nofun⟩
  | queued hs _ => rcases hs with rfl | rfl | rfl <;> exact ⟨nofun, nofun⟩
  | busy hs _ => exact ⟨fun _ => hs, fun _ => rfl⟩

/-! ## Teardowns and stops -/

/-- A regular machine can be torn down whenever nobody is inside a resume. -/
theorem Regular.close (h : m.Regular) (hi : m.inside = none) : m.close.Sound := by
  rcases m with ⟨state, guest, task, epoch, waiting, inside, _⟩
  cases h with
  | empty _ hw | resting _ hw => exact close_sound hw.later rfl fun _ => rfl
  | queued hs hw =>
    refine close_sound hw.later rfl fun h => ?_
    rcases hs with rfl | rfl | rfl <;> cases h
  | busy _ _ => cases hi

theorem stop_regular (h : m.Regular) : m.stop.2.Regular := by
  rcases m with ⟨state, guest, task, epoch, waiting, inside, _⟩
  cases h with
  | empty hs hw =>
    rcases hs with rfl | rfl
    · exact .empty (.inl rfl) hw
    · exact (close_sound hw.later rfl nofun).regular
  | resting hs hw => rcases hs with rfl | rfl | rfl | rfl | rfl <;> exact (close_sound hw.later rfl nofun).regular
  | queued hs hw => rcases hs with rfl | rfl | rfl <;> exact .queued (.inr (.inr rfl)) hw
  | busy hs hw => rcases hs with rfl | rfl <;> exact .busy (.inr rfl) hw

theorem Free.rest_regular (h : m.Free g) {state : State} (hs : state.Resting) :
    Lifecycle.Regular ⟨state, m.guest, m.task, m.epoch, m.waiting, m.inside⟩ := by
  rw [h.guest, h.task, h.inside]
  exact .resting hs h.void

theorem Free.schedule_regular (h : m.Free g) {next : State} (hs : next = .yielded ∨ next = .synchronizedReturn) :
    (m.schedule next).Regular := by
  rw [Regular, schedule_lifecycle next h.task, h.guest, h.inside]
  exact .queued (hs.imp_right .inl) h.void.queue

/-! ## Tasks -/

/-- A task that waits may begin while nobody is inside a resume. -/
theorem beginTask_regular (h : m.Regular) (hi : m.inside = none) {epoch : Nat} (he : epoch ∈ m.waiting) :
    (beginTask site epoch { m with waiting := m.waiting.erase epoch }).Regular := by
  rcases m with ⟨state, guest, task, current, waiting, inside, queue, ledger, _, lastUpdate, _, _, _, _, outside, _⟩
  have hold (hv : Void current waiting) : current ≠ epoch := Nat.ne_of_gt (hv epoch he)
  unfold beginTask
  cases h with
  | empty hs hw =>
    rw [if_pos (hold hw)]
    exact .empty hs (hw.erase epoch)
  | resting hs hw =>
    rw [if_pos (hold hw)]
    exact .resting hs (hw.erase epoch)
  | busy hs hw => cases hi
  | queued hs hw =>
    split
    · next hne => exact .queued hs (hw.erase hne)
    · next heq =>
      obtain rfl : current = epoch := Decidable.not_not.1 heq
      rcases hs with rfl | rfl | rfl
      · rw [if_neg (by simp)]
        split
        · exact .resting (.inr (.inr (.inl rfl))) hw.begin
        · exact .busy (.inl rfl) hw.begin
      · rw [if_neg (by simp)]
        split
        · exact .resting (.inr (.inr (.inr (.inr rfl)))) hw.begin
        · exact .busy (.inl rfl) hw.begin
      · rw [if_pos rfl]
        refine Sound.regular ?_
        exact close_sound hw.begin.later rfl nofun

theorem Granted.regular {w : Wish} (hm : m.Granted w m') (h : m.Free g) : m'.Regular := by
  cases hm with
  | asleep => exact h.rest_regular (.inr (.inl rfl))
  | idle => exact h.rest_regular (.inl rfl)
  | resumed => exact h.schedule_regular (.inl rfl)
  | calls => exact h.rest_regular (.inr (.inr (.inr (.inl rfl))))
  | closed => exact h.close_sound.regular
  | reboots => exact h.reboot_sound.regular

/-- Whatever a resume has come to, the machine goes on or is torn down. -/
theorem Reacted.regular {r : Except Fault Progress} (hm : m.Reacted r m') (h : m.Free g) : m'.Regular := by
  cases hm with
  | stopped => exact h.close_sound.regular
  | granted _ hgranted => exact hgranted.regular h
  | ended _ notices message => exact (h.noticed (notices.map .noticed) message).close_sound.regular

theorem finishTask_regular (h : m.Regular) : (finishTask site m).Regular := by
  cases hi : m.inside with
  | none =>
    rw [finishTask_idle site hi]
    exact h
  | some d =>
    obtain ⟨-, hw, g, hg⟩ := h.resuming hi
    obtain ⟨texts, outside, hf⟩ := finishTask_resumed site hi hg
    rw [hf]
    exact (react_reacted site _ _).regular ⟨rfl, rfl, rfl, hw⟩

/-! ## Starts and messages -/

theorem start_regular (h : m.Regular) : (start site m).2.Regular := by
  by_cases hs : m.state = .stopped
  · exact (start_sound (h.sound hs)).regular
  · rw [show start site m = (false, m) from if_pos hs]
    exact h

theorem receive_regular (msg : Message) (h : m.Regular) : (receive site msg m).2.Regular :=
  handle_of msg h (fun s => h.of_eq (signal_lifecycle s m)) (start_regular h) (stop_regular h)

/-! ## Updates -/

/-- How a machine goes on after the call of its guest, which no one is about to resume then: it is to be stopped, it has
the result, or the call has failed. -/
theorem Regular.synchronize_cases (site : Site ν) (h : m.Regular) (hs : m.state = .synchronizedCall) :
    ∃ (m' : Machine ν) (g : Guest), m'.Free g ∧ m'.epoch = m.epoch ∧
      (synchronize site m = m'.close.tell .marked ∨ synchronize site m = m'.schedule .synchronizedReturn ∨
        ∃ f, synchronize site m = m'.failCall f) := by
  obtain ⟨g, hfree⟩ := h.free_call hs
  obtain ⟨m₁, m₂, hm₁, rfl, hsync⟩ := synchronize_free site hfree.inside hfree.guest
  have hfree₁ : m₁.Free g := by
    subst hm₁
    exact ⟨hfree.guest, hfree.task, hfree.inside, hfree.void⟩
  have hepoch : m₁.epoch = m.epoch := by rw [hm₁]
  have hcalled : m₁.Called (g.invoke (host site) m₁).2.2 := invoke_called site g (.inl (by rw [hm₁]))
  refine ⟨_, _, hcalled.free hfree₁ (g.invoke (host site) m₁).2.1, ?_, hsync.imp_right (.imp_left And.right)⟩
  rw [← hepoch]
  rcases hcalled with hl | hl <;> exact congrArg Lifecycle.epoch hl

/-- The call is made while the world is held still, and the machine goes on or is torn down. -/
theorem synchronize_regular (h : m.Regular) (hs : m.state = .synchronizedCall) : (synchronize site m).Regular := by
  obtain ⟨m', g, hfree, -, hsync | hsync | ⟨f, hsync⟩⟩ := h.synchronize_cases site hs <;> rw [hsync]
  · exact hfree.close_sound.regular.of_eq rfl
  · exact hfree.schedule_regular (.inr rfl)
  · exact (failCall_sound hfree f).regular

/-- An update goes on with a machine that is stopped if it reboots and makes a call only if it has one. -/
theorem Advanced.regular {a : Action} (hm : m.Advanced a m') (h : m.Regular) :
    m'.Regular ∧ (a = .reboot → m'.state = .stopped) ∧ (a = .call → m'.state = .synchronizedCall) := by
  cases hm with
  | kept hs => exact ⟨h, nofun, nofun⟩
  | resumed hs =>
    obtain ⟨g, hfree⟩ := h.free (hs.imp_right (.imp_right .inl))
    exact ⟨hfree.schedule_regular (.inl rfl), nofun, nofun⟩
  | returned hs =>
    obtain ⟨g, hfree⟩ := h.free (.inr (.inr (.inr (.inr hs))))
    exact ⟨hfree.schedule_regular (.inr rfl), nofun, nofun⟩
  | reboots hs => exact ⟨h.reboot hs, fun _ => rfl, nofun⟩
  | calls hs => exact ⟨h, nofun, fun _ => hs⟩

theorem perform_regular {action : Action} (h : m.Regular) (hr : action = .reboot → m.state = .stopped)
    (hc : action = .call → m.state = .synchronizedCall) : (perform site action m).Regular := by
  cases action with
  | nothing => exact h
  | reboot =>
    have hsound := h.sound (hr rfl)
    exact start_regular (hsound.close (congrArg Lifecycle.inside (hsound.stopped (hr rfl)).1)).regular
  | call => exact synchronize_regular h (hc rfl)

/-- One tick keeps a machine regular. -/
theorem update_regular (h : m.Regular) : (update site m).Regular := by
  obtain ⟨hm, hr, hc⟩ := (advance_advanced (noted site m)).regular h
  have hshown := @shown_lifecycle ν site m.ended (advance (noted site m)).2
  rw [update_noted]
  refine perform_regular (hm.of_eq hshown) (fun ha => ?_) fun ha => ?_
  · exact (congrArg Lifecycle.state hshown).trans (hr ha)
  · exact (congrArg Lifecycle.state hshown).trans (hc ha)

/-! ## Records -/

/-- What comes of any record: it is refused, or there is no run in it, or one that reboots, or one that rests. -/
inductive Restored (site : Site ν) (r : MachineRecord) (m : Machine ν) : Except Failure Unit × Machine ν → Prop
  | refused {m' : Machine ν} (f : Failure) (hm : (m.readdressed r).Told m') : Restored site r m (.error f, m')
  | stopped : Restored site r m (.ok (), { m.readdressed r with message := r.message })
  | rebooting : Restored site r m
      (.ok (), { m.readdressed r with state := .rebooting, announced := true, message := r.message })
  | resting {s : State} {m' : Machine ν} (g : Guest) (hs : (restoredState s).Resting) (hm : (m.readdressed r).Told m') :
      Restored site r m (.ok (), resumeRun site s g r m')

theorem loadRun_restored (site : Site ν) (r : MachineRecord) (m : Machine ν) {s : State}
    (hs : (restoredState s).Resting) : Restored site r m (loadRun site s r (m.readdressed r)) := by
  rcases hl : loadRun site s r (m.readdressed r) with ⟨f | _, m'⟩
  · have htold := loadRun_told (f := f) (congrArg Prod.fst hl)
    rw [hl] at htold
    exact .refused f htold
  · obtain ⟨-, g, m'', -, htold, -, hok⟩ := loadRun_ok (congrArg Prod.fst hl)
    rw [← hl, hok]
    exact .resting g hs htold

theorem tryLoad_restored (site : Site ν) (r : MachineRecord) (m : Machine ν) :
    Restored site r m (tryLoad site r m) := by
  unfold tryLoad
  cases State.ofCode? r.state with
  | none => exact .refused _ (.refl _)
  | some s =>
    cases s with
    | stopped => exact .stopped
    | rebooting => exact .rebooting
    | running | stopping => exact .refused _ (.refl _)
    | suspended => exact loadRun_restored site r m (.inl rfl)
    | yielded | sleeping | paused => exact loadRun_restored site r m (.inr (.inr (.inl rfl)))
    | synchronizedCall => exact loadRun_restored site r m (.inr (.inr (.inr (.inl rfl))))
    | synchronizedReturn | synchronizedReturnPaused =>
      exact loadRun_restored site r m (.inr (.inr (.inr (.inr rfl))))

/-- What holds of a machine whatever comes of a record, holds after it has been loaded. -/
theorem load_of {P : Machine ν → Prop} (site : Site ν) (r : MachineRecord) (m : Machine ν)
    (hrefused : ∀ f told outside,
      P (close (tell (.noticed (.discarded f)) { m.close.readdressed r with told, outside })))
    (hstopped : P { m.close.readdressed r with message := r.message })
    (hrebooting : P { m.close.readdressed r with state := .rebooting, announced := true, message := r.message })
    (hresting : ∀ s g told outside, (restoredState s).Resting →
      P (resumeRun site s g r { m.close.readdressed r with told, outside })) : P (load site r m) := by
  have hrestored := tryLoad_restored site r m.close
  unfold load
  obtain ⟨t, ht⟩ : ∃ t, tryLoad site r m.close = t := ⟨_, rfl⟩
  rw [ht] at hrestored ⊢
  cases hrestored with
  | refused f hm =>
    obtain ⟨told, outside, -, rfl⟩ := hm
    exact hrefused f told outside
  | stopped => exact hstopped
  | rebooting => exact hrebooting
  | resting g hs hm =>
    obtain ⟨told, outside, -, rfl⟩ := hm
    exact hresting _ g told outside hs

/-- Any record leaves a machine regular on which it is loaded. -/
theorem load_regular (r : MachineRecord) (h : m.Regular) (hi : m.inside = none) : (load site r m).Regular := by
  have hclose := h.close hi
  obtain ⟨hl, hw⟩ := hclose.stopped (close_state m)
  refine load_of site r m (fun f told outside => ?_) hclose.regular ?_ fun s g told outside hs => ?_
  · have hregular : Regular (tell (.noticed (.discarded f)) { m.close.readdressed r with told, outside }) :=
      hclose.regular
    exact (hregular.close (congrArg Lifecycle.inside hl)).regular
  · show Lifecycle.Regular { m.close.lifecycle with state := .rebooting }
    rw [hl]
    exact .empty (.inr rfl) hw
  · show Lifecycle.Regular { m.close.lifecycle with state := restoredState s, guest := some _ }
    rw [hl]
    exact .resting hs hw

end Machine

end VirtualComputer
