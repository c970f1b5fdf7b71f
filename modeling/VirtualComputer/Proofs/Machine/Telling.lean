import VirtualComputer.Proofs.Machine.Operations

/-!
# What machines tell

Nearly all that a machine does tells the world things, but announces no start or end of a run, and sends messages only
in a synchronized call (`Tells`).
-/

namespace VirtualComputer

/-- What an event announces. -/
def Event.announcement? : Event → Option Announcement
  | .announced a => some a
  | _ => none

/-- The message that has been sent, with its target and method. -/
def Event.message? : Event → Option (String × String × List Scalar)
  | .called target method args => some (target, method, args)
  | _ => none

/-- The event is neither an announcement nor a message. -/
def Event.Plain (e : Event) : Prop :=
  e.announcement? = none ∧ e.message? = none

/-- The announcements that a machine has made, in order. -/
def Machine.announcements {ν : Type} (m : Machine ν) : List Announcement :=
  m.told.filterMap Event.announcement?

/-- The messages that a machine has sent, in order. -/
def Machine.sent {ν : Type} (m : Machine ν) : List (String × String × List Scalar) :=
  m.told.filterMap Event.message?

namespace Machine

variable {ν : Type} {site : Site ν} {m m' m'' : Machine ν} {n k : ℕ}

/-! ## Announcements -/

/-- Nothing has been announced. -/
structure Silent (m m' : Machine ν) : Prop where
  announced : m'.announced = m.announced
  announcements : m'.announcements = m.announcements

theorem Silent.of_eq (ha : m'.announced = m.announced) (ht : m'.told = m.told) : m.Silent m' :=
  ⟨ha, congrArg (List.filterMap Event.announcement?) ht⟩

theorem Silent.refl (m : Machine ν) : m.Silent m :=
  ⟨rfl, rfl⟩

theorem Silent.trans (h : m.Silent m') (h' : m'.Silent m'') : m.Silent m'' :=
  ⟨h'.announced.trans h.announced, h'.announcements.trans h.announcements⟩

/-- What a machine is like otherwise does not matter. -/
theorem Silent.before (h : m'.Silent m'') (ha : m'.announced = m.announced) (ht : m'.told = m.told) : m.Silent m'' :=
  (of_eq ha ht).trans h

theorem Silent.after (h : m.Silent m') (ha : m''.announced = m'.announced) (ht : m''.told = m'.told) : m.Silent m'' :=
  h.trans (of_eq ha ht)

theorem tellAll_announcements (es : List Event) (m : Machine ν) :
    (m.tellAll es).announcements = m.announcements ++ es.filterMap Event.announcement? :=
  List.filterMap_append ..

/-! ## Messages -/

/-- At most so many messages have been sent. -/
def Sends (n : ℕ) (m m' : Machine ν) : Prop :=
  ∃ sent, m'.sent = m.sent ++ sent ∧ sent.length ≤ n

/-- What a machine has told beside is no message. -/
theorem sends_of_told (es : List Event) (ht : m'.told = m.told ++ es) (h : ∀ e ∈ es, e.message? = none) :
    m.Sends 0 m' := by
  refine ⟨[], ?_, Nat.le_refl 0⟩
  rw [sent, ht, List.filterMap_append, List.filterMap_eq_nil_iff.2 h]
  rfl

namespace Sends

theorem of_eq (ht : m'.told = m.told) : m.Sends 0 m' :=
  sends_of_told [] (ht.trans (List.append_nil _).symm) nofun

theorem refl (m : Machine ν) : m.Sends 0 m :=
  of_eq rfl

theorem trans (h : m.Sends n m') (h' : m'.Sends k m'') : m.Sends (n + k) m'' := by
  obtain ⟨l, hl, hn⟩ := h
  obtain ⟨l', hl', hk⟩ := h'
  refine ⟨l ++ l', by rw [hl', hl, List.append_assoc], ?_⟩
  rw [List.length_append]
  omega

/-- Going on without any message. -/
theorem quietly (h : m.Sends n m') (h' : m'.Sends 0 m'') : m.Sends n m'' :=
  h.trans h'

theorem mono (h : m.Sends n m') (hle : n ≤ k) : m.Sends k m' := by
  obtain ⟨l, hl, hn⟩ := h
  exact ⟨l, hl, hn.trans hle⟩

/-- What a machine is like otherwise does not matter. -/
theorem before (h : m'.Sends n m'') (ht : m'.told = m.told) : m.Sends n m'' := by
  simpa only [Nat.zero_add] using (of_eq ht).trans h

end Sends

/-! ## Announcements and messages -/

/-- Nothing has been announced, and at most so many messages have been sent. -/
structure Tells (n : ℕ) (m m' : Machine ν) : Prop where
  silent : m.Silent m'
  sends : m.Sends n m'

namespace Tells

theorem of_eq (ha : m'.announced = m.announced) (ht : m'.told = m.told) : m.Tells 0 m' :=
  ⟨.of_eq ha ht, .of_eq ht⟩

theorem refl (m : Machine ν) : m.Tells 0 m :=
  ⟨.refl m, .refl m⟩

theorem trans (h : m.Tells n m') (h' : m'.Tells k m'') : m.Tells (n + k) m'' :=
  ⟨h.silent.trans h'.silent, h.sends.trans h'.sends⟩

/-- Going on without any message. -/
theorem quietly (h : m.Tells n m') (h' : m'.Tells 0 m'') : m.Tells n m'' :=
  h.trans h'

theorem mono (h : m.Tells n m') (hle : n ≤ k) : m.Tells k m' :=
  ⟨h.silent, h.sends.mono hle⟩

/-- What a machine is like otherwise does not matter. -/
theorem before (h : m'.Tells n m'') (ha : m'.announced = m.announced) (ht : m'.told = m.told) : m.Tells n m'' :=
  ⟨h.silent.before ha ht, h.sends.before ht⟩

theorem after (h : m.Tells n m') (ha : m''.announced = m'.announced) (ht : m''.told = m'.told) : m.Tells n m'' :=
  h.quietly (.of_eq ha ht)

end Tells

theorem tellAll_tells {es : List Event} (h : ∀ e ∈ es, e.Plain) (m : Machine ν) : m.Tells 0 (m.tellAll es) := by
  refine ⟨⟨rfl, ?_⟩, sends_of_told es rfl fun e he => (h e he).2⟩
  rw [tellAll_announcements, List.filterMap_eq_nil_iff.2 fun e he => (h e he).1, List.append_nil]

theorem tell_tells {e : Event} (h : e.Plain) (m : Machine ν) : m.Tells 0 (m.tell e) :=
  tellAll_tells (List.forall_mem_singleton.2 h) m

theorem Printed.tells (h : m.Printed m') : m.Tells 0 m' := by
  obtain ⟨texts, outside, -, rfl⟩ := h
  have htold : m.Tells 0 (m.tellAll (texts.map .printed)) := by
    refine tellAll_tells (fun e he => ?_) m
    obtain ⟨text, -, rfl⟩ := List.mem_map.1 he
    exact ⟨rfl, rfl⟩
  exact htold.after rfl rfl

theorem close_tells (m : Machine ν) : m.Tells 0 m.close := by
  unfold close
  dsimp only
  split <;> exact .of_eq rfl rfl

theorem crash_tells (message : String) (m : Machine ν) : m.Tells 0 (m.crash message) := by
  have hclose := close_tells { m with message := some message }
  exact (hclose.before (m := m) rfl rfl).trans (tell_tells ⟨rfl, rfl⟩ _)

theorem schedule_tells (next : State) (m : Machine ν) : m.Tells 0 (m.schedule next) := by
  unfold schedule
  split
  · exact tell_tells ⟨rfl, rfl⟩ m
  · exact .of_eq rfl rfl

theorem signal_tells (s : Signal) (m : Machine ν) : m.Tells 0 (m.signal s).2 := by
  unfold signal
  split
  · exact .refl m
  · exact .of_eq rfl rfl

theorem stop_tells (m : Machine ν) : m.Tells 0 m.stop.2 := by
  rcases m.stop_leaves with h | h | h <;> rw [h]
  · exact .refl m
  · exact .of_eq rfl rfl
  · exact close_tells m

/-! ### Calls -/

theorem grant_tells (r : Request) (m : Machine ν) : m.Tells 0 (m.grant r).2 := by
  cases r with
  | signal s => exact signal_tells s m
  | receive msg =>
    exact handle_of (P := m.Tells 0) msg (.refl m) (fun s => signal_tells s m) (.refl m) (stop_tells m)

theorem converse_tells : ∀ (x : Exchange ν) (m : Machine ν), m.Tells 0 (converse x m).2
  | .answer _ _, _ => .of_eq rfl rfl
  | .request r next, m => by
    rw [converse]
    exact ((grant_tells r m).trans (tell_tells ⟨rfl, rfl⟩ _)).trans (converse_tells (next (m.grant r).1) _)

theorem send_tells (site : Site ν) (target method : String) (args : List Scalar) (m : Machine ν) :
    m.Tells 1 ((host site).send target method args m).2 := by
  have hsilent : m.Silent (m.tell (.called target method args)) :=
    ⟨rfl, (tellAll_announcements _ m).trans (List.append_nil _)⟩
  have hcalled : m.Tells 1 (m.tell (.called target method args)) :=
    ⟨hsilent, [(target, method, args)], List.filterMap_append .., Nat.le_refl 1⟩
  exact hcalled.quietly (converse_tells _ _)

/-- What is sent around a guest is what its machine sends. -/
theorem tells_of_reaches (h : (host site).Reaches m n m') : m.Tells n m' := by
  induction h with
  | refl => exact .refl m
  | print _ text ih => exact ih.quietly (tell_tells ⟨rfl, rfl⟩ _)
  | send _ target method args ih => exact ih.trans (send_tells site target method args _)
  | later _ reader ih => exact ih.quietly (later_printed site reader _).tells

theorem invokePending_tells (site : Site ν) (m : Machine ν) : m.Tells 1 (invokePending site m).2 := by
  unfold invokePending
  split
  · exact (Tells.refl m).mono (Nat.zero_le 1)
  · next g _ =>
    obtain ⟨n, hn, hreaches⟩ := g.invoke_reaches (host site) m
    exact ((tells_of_reaches hreaches).mono hn).after rfl rfl

theorem failCall_tells (f : Fault) (m : Machine ν) : m.Tells 0 (m.failCall f) := by
  unfold failCall
  split <;> exact (tell_tells ⟨rfl, rfl⟩ m).trans (crash_tells _ _)

/-- A call that is not put off sends at most one message. -/
theorem synchronize_tells (site : Site ν) (m : Machine ν) :
    m.Tells (if m.inside.isSome then 0 else 1) (synchronize site m) := by
  have hinvoked : m.Tells 1 (invokePending site { m with state := .running }).2 :=
    (invokePending_tells site { m with state := .running }).before rfl rfl
  unfold synchronize
  split
  · exact .refl m
  · dsimp only
    refine hinvoked.quietly ?_
    split
    · exact (close_tells _).trans (tell_tells ⟨rfl, rfl⟩ _)
    · split
      · exact schedule_tells _ _
      · exact failCall_tells _ _

/-! ### Tasks -/

theorem Taken.tells (h : m.Taken m') : m.Tells 0 m' := by
  cases h with
  | void => exact .refl m
  | closed => exact close_tells m
  | parked | entered => exact .of_eq rfl rfl
  | refused n queue =>
    have htold : m.Tells 0 (tell (.noticed n) { m with queue }) := (tell_tells ⟨rfl, rfl⟩ { m with queue }).before rfl rfl
    exact htold.trans (close_tells _)

theorem Granted.tells {w : Wish} (h : m.Granted w m') : m.Tells 0 m' := by
  cases h with
  | asleep | idle | calls => exact .of_eq rfl rfl
  | resumed => exact schedule_tells _ m
  | closed => exact close_tells m
  | reboots => exact (close_tells m).after rfl rfl

theorem Reacted.tells {r : Except Fault Progress} (h : m.Reacted r m') : m.Tells 0 m' := by
  cases h with
  | stopped => exact close_tells m
  | granted _ hgranted => exact hgranted.tells.trans (tell_tells ⟨rfl, rfl⟩ _)
  | ended _ notices message =>
    have hnoticed : m.Tells 0 (m.tellAll (notices.map .noticed)) := by
      refine tellAll_tells (fun e he => ?_) m
      obtain ⟨n, -, rfl⟩ := List.mem_map.1 he
      exact ⟨rfl, rfl⟩
    have hended : m.Tells 0 { m.tellAll (notices.map .noticed) with message } := hnoticed.after rfl rfl
    exact (hended.trans (close_tells _)).trans (tell_tells ⟨rfl, rfl⟩ _)

theorem finishTask_tells (site : Site ν) (m : Machine ν) : m.Tells 0 (finishTask site m) := by
  have hrun (d : Delivery) : m.Tells 0 (runGuest site d m).2 := by
    unfold runGuest
    split
    · exact .refl m
    · next g _ =>
      have hresume := (resume_printed site g d m).tells
      exact hresume.after rfl rfl
  unfold finishTask
  split
  · exact .refl m
  · next d _ =>
    have hresumed := hrun d
    rcases hr : runGuest site d m with ⟨r, m'⟩
    rw [hr] at hresumed
    have hreacted := (react_reacted site r { m' with
      ledger := m'.ledger.charge (site.elapsed m'.outside)
      task := false
      inside := none }).tells
    exact hresumed.trans (hreacted.before rfl rfl)

/-! ### Records and ticks -/

theorem save_tells (m : Machine ν) : m.Tells 0 m.save.2 := by
  have hpersist (g : Guest) (v : Option Val) (m : Machine ν) : m.Tells 0 (m.persist g v).2 := by
    unfold persist
    dsimp only
    cases (g.persist (v.getD .null)).2 with
    | none => exact .refl m
    | some w => exact tell_tells ⟨rfl, rfl⟩ m
  have hrecord (s : State) (g : Guest) : m.Tells 0 (m.recordRun s g).2 := by
    have hkernel := hpersist g g.kernel m
    unfold recordRun
    dsimp only
    split
    · exact hkernel.trans (hpersist g g.pending _)
    · exact hkernel
  unfold save
  split
  · exact .refl m
  · exact .refl m
  · exact .refl m
  · exact .refl m
  · dsimp only
    split
    · exact .refl m
    · exact hrecord _ _

theorem Advanced.tells {a : Action} (h : m.Advanced a m') : m.Tells 0 m' := by
  cases h with
  | kept | calls => exact .refl m
  | reboots => exact .of_eq rfl rfl
  | resumed | returned => exact schedule_tells _ m

theorem takeMessage_tells (m : Machine ν) : m.Tells 0 m.takeMessage.2 := by
  unfold takeMessage
  split <;> exact .of_eq rfl rfl

theorem showMessage_tells (site : Site ν) (message : Option String) (m : Machine ν) :
    m.Tells 0 (showMessage site message m) := by
  unfold showMessage
  split
  · exact .refl m
  · refine tellAll_tells (fun e he => ?_) m
    obtain ⟨es, hes, he⟩ := List.mem_flatten.1 he
    obtain ⟨i, hi, rfl⟩ := List.mem_mapIdx.1 hes
    obtain ⟨call, -, rfl⟩ := List.mem_map.1 he
    exact ⟨rfl, rfl⟩

/-- The end of a run is announced to the displays too. -/
theorem announceEnd_events (site : Site ν) (ended : Bool) (m : Machine ν) : ∃ es : List Event, (∀ e ∈ es, e.Plain) ∧
    announceEnd site ended m = m.tellAll ((if ended then [.announced .stopped] else []) ++ es) := by
  cases ended with
  | false => exact ⟨[], nofun, by simp [announceEnd, tellAll]⟩
  | true =>
    refine ⟨(site.displays m.outside).mapIdx fun i _ => .displayed i .clear, fun e he => ?_, rfl⟩
    obtain ⟨i, hi, rfl⟩ := List.mem_mapIdx.1 he
    exact ⟨rfl, rfl⟩

end Machine

end VirtualComputer
