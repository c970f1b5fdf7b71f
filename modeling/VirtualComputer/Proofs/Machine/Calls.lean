import VirtualComputer.Proofs.Machine.Kernels

/-!
# Calls are made exactly once

A kernel that yields a callable asks for a call.  What happens next goes through the phases of a call (`Phase.Next`),
which every step of a machine keeps to (`Step.phases`): the call waits for the first update that finds the guest free,
its result waits for a worker, and the `yield` that asked for it takes it (`calls_answered`).
-/

namespace VirtualComputer

open Guest Machine

/-! ## Occurrences -/

namespace Occurrence

/-- The kernel has yielded a callable, and waits for the result as a coroutine. -/
def Asks (call : Val) (co : Thread) : Occurrence → Prop
  | .resumed _ _ _ r left => r = .ok (.yielded call) ∧ call.isCallable ∧ left = co
  | .loaded state g _ => state = .synchronizedCall ∧ g.pending = some call ∧ g.kernel = some (.thread co)
  | _ => False

/-- A signal has arrived. -/
def Arrival : Occurrence → Prop
  | .accepted _ | .refused _ => True
  | _ => False

/-- What may happen before a call is made: no update has found the guest free. -/
def Waits : Occurrence → Prop
  | .accepted _ | .refused _ | .updated false => True
  | _ => False

/-- What may happen before a result is delivered: the resume is begun, and put off any number of times. -/
def Passes : Occurrence → Prop
  | .accepted _ | .refused _ | .updated _ | .parked | .began .result => True
  | _ => False

theorem Arrival.waits {o : Occurrence} (h : o.Arrival) : o.Waits := by
  cases o <;> trivial

theorem Arrival.passes {o : Occurrence} (h : o.Arrival) : o.Passes := by
  cases o <;> trivial

end Occurrence

/-! ## Phases -/

/-- How far a call has come. -/
inductive Phase where
  /-- There is none. -/
  | idle
  | asked (call : Val) (co : Thread)
  /-- An update has found the guest free. -/
  | calling (call : Val) (co : Thread)
  | answered (items : List Val) (co : Thread)
  /-- The call has come to something that cannot be delivered. -/
  | failed

/-- The phase once the kernel has been resumed: another call if it has yielded one. -/
inductive Phase.After (r : Except Fault Outcome) (left : Thread) : Phase → Prop
  | asked {call : Val} (hr : r = .ok (.yielded call)) (hc : call.isCallable) : After r left (.asked call left)
  | idle (hr : ∀ call, r = .ok (.yielded call) → ¬call.isCallable) : After r left .idle

/-- How phases follow each other. -/
inductive Phase.Next : Phase → Occurrence → Phase → Prop
  | closed {p : Phase} (hp : ∀ call co, p ≠ .calling call co) : Next p .closed .idle
  | arrival {p : Phase} {o : Occurrence} (ho : o.Arrival) (hp : p ≠ .failed) : Next p o p
  | updated {free : Bool} : Next .idle (.updated free) .idle
  | parked : Next .idle .parked .idle
  | began {d : Delivery} (hd : d ≠ .result) : Next .idle (.began d) .idle
  | resumed {d : Delivery} {v : Val} {co : Thread} {r : Except Fault Outcome} {left : Thread} {p : Phase}
      (hd : d ≠ .result) (hp : After r left p) : Next .idle (.resumed d v co r left) p
  | loaded {s : State} {g : Guest} {signals : List Signal} (hs : s = .suspended ∨ s = .paused) :
      Next .idle (.loaded s g signals) .idle
  | loadedCall {g : Guest} {signals : List Signal} {call : Val} {co : Thread} (hp : g.pending = some call)
      (hk : g.kernel = some (.thread co)) : Next .idle (.loaded .synchronizedCall g signals) (.asked call co)
  | loadedReturn {g : Guest} {signals : List Signal} {items : List Val} {co : Thread}
      (hp : g.pending = some (.list items)) (hk : g.kernel = some (.thread co)) :
      Next .idle (.loaded .synchronizedReturnPaused g signals) (.answered items co)
  | deferred {call : Val} {co : Thread} : Next (.asked call co) (.updated false) (.asked call co)
  | calling {call : Val} {co : Thread} : Next (.asked call co) (.updated true) (.calling call co)
  | answered {call : Val} {co : Thread} {items : List Val} :
      Next (.calling call co) (.invoked call (.ok (.list items))) (.answered items co)
  | failed {call : Val} {co : Thread} {r : Except Val Val} (hr : ∀ items, r ≠ .ok (.list items)) :
      Next (.calling call co) (.invoked call r) .failed
  | passed {items : List Val} {co : Thread} {o : Occurrence} (ho : o.Passes) :
      Next (.answered items co) o (.answered items co)
  | delivered {items : List Val} {co : Thread} {r : Except Fault Outcome} {left : Thread} {p : Phase}
      (hp : After r left p) : Next (.answered items co) (.resumed .result (.list items) co r left) p

/-- Phases one after the other. -/
inductive Phase.Runs : Phase → List Occurrence → Phase → Prop
  | nil (p : Phase) : Runs p [] p
  | cons {p q s : Phase} {o : Occurrence} {l : List Occurrence} (h : p.Next o q) (hl : Runs q l s) : Runs p (o :: l) s

section

variable {p q s : Phase} {o : Occurrence} {l l' : List Occurrence}

theorem Phase.Next.runs (h : p.Next o q) : p.Runs [o] q :=
  .cons h (.nil q)

theorem Phase.Runs.append (h : p.Runs l q) (h' : q.Runs l' s) : p.Runs (l ++ l') s := by
  induction h with
  | nil => exact h'
  | cons hn _ ih => exact .cons hn (ih h')

theorem Phase.Runs.split : ∀ {l : List Occurrence} {p : Phase}, p.Runs (l ++ l') s → ∃ q, p.Runs l q ∧ q.Runs l' s
  | [], p, h => ⟨p, .nil p, h⟩
  | o :: l, p, .cons hn hl => by
    obtain ⟨q, hq, hs⟩ := Phase.Runs.split hl
    exact ⟨q, .cons hn hq, hs⟩

end

/-! ## Machines keep to the phases -/

/-- The guest has a value in its pending slot, and its kernel waits as a coroutine. -/
def Situation.Holds (c : Situation) (v : Val) (co : Thread) : Prop :=
  ∃ g, c.guest = some g ∧ g.pending = some v ∧ g.kernel = some (.thread co)

/-- The situations in which a call has come to a phase. -/
inductive Phase.Fits (c : Situation) : Phase → Prop
  | idle (hs : c.state ≠ .synchronizedCall ∧ c.state ≠ .synchronizedReturn ∧ c.state ≠ .synchronizedReturnPaused)
      (hr : c.state = .running → c.inside.isSome) (hi : c.inside ≠ some .result) : Fits c .idle
  | asked {call : Val} {co : Thread} (hs : c.state = .synchronizedCall) (hi : c.inside = none)
      (hc : call.isCallable) (hg : c.Holds call co) : Fits c (.asked call co)
  | calling {call : Val} {co : Thread} (hs : c.state = .running) (hi : c.inside = none)
      (hc : call.isCallable) (hg : c.Holds call co) : Fits c (.calling call co)
  | resting {items : List Val} {co : Thread}
      (hs : c.state = .synchronizedReturn ∨ c.state = .synchronizedReturnPaused ∨ c.state = .stopping)
      (hi : c.inside = none) (hg : c.Holds (.list items) co) : Fits c (.answered items co)
  | returning {items : List Val} {co : Thread} (hs : c.state = .running ∨ c.state = .stopping)
      (hi : c.inside = some .result) (hg : c.Holds (.list items) co) : Fits c (.answered items co)

section

variable {ν : Type} {site : Site ν} {R : MachineRecord → Prop} {a b c : Situation} {l : List Occurrence} {p : Phase}

namespace Phase.Fits

/-- What holds of the phase does not depend on the queue. -/
theorem same (h : p.Fits a) (hs : b.state = a.state) (hg : b.guest = a.guest) (hi : b.inside = a.inside) :
    p.Fits b := by
  rcases a with ⟨state, guest, inside, _⟩
  rcases b with ⟨state', guest', inside', _⟩
  cases hs
  cases hg
  cases hi
  cases h with
  | idle hs hr hi => exact .idle hs hr hi
  | asked hs hi hc hg => exact .asked hs hi hc hg
  | calling hs hi hc hg => exact .calling hs hi hc hg
  | resting hs hi hg => exact .resting hs hi hg
  | returning hs hi hg => exact .returning hs hi hg

theorem closed : Phase.idle.Fits c.closed :=
  .idle ⟨nofun, nofun, nofun⟩ nofun nofun

/-- There is no call without a guest. -/
theorem idle_of_none (h : p.Fits c) (hg : c.guest = none) : p = .idle := by
  cases h with
  | idle => rfl
  | asked _ _ _ hg' | calling _ _ _ hg' | resting _ _ hg' | returning _ _ hg' =>
    obtain ⟨g, hg', -⟩ := hg'
    cases hg.symm.trans hg'

theorem idle_of_state (h : p.Fits c)
    (hs : c.state = .suspended ∨ c.state = .sleeping ∨ c.state = .paused ∨ c.state = .yielded) : p = .idle := by
  cases h with
  | idle => rfl
  | asked hs' | calling hs' | resting hs' | returning hs' => grind

theorem asked_of_state (h : p.Fits c) (hs : c.state = .synchronizedCall) :
    ∃ call co, p = .asked call co ∧ call.isCallable ∧ c.Holds call co := by
  cases h with
  | asked _ _ hc hg => exact ⟨_, _, rfl, hc, hg⟩
  | idle hs' | calling hs' | resting hs' | returning hs' => grind

theorem answered_of_state (h : p.Fits c) (hs : c.state = .synchronizedReturn ∨ c.state = .synchronizedReturnPaused) :
    ∃ items co, p = .answered items co ∧ c.inside = none ∧ c.Holds (.list items) co := by
  cases h with
  | resting _ hi hg => exact ⟨_, _, rfl, hi, hg⟩
  | idle hs' | asked hs' | calling hs' | returning hs' => grind

/-- While a worker has the guest, a result is delivered exactly if there is one. -/
theorem of_inside (h : p.Fits c) {d : Delivery} (hi : c.inside = some d) :
    p = .idle ∧ d ≠ .result ∨ ∃ items co, p = .answered items co ∧ d = .result ∧ c.Holds (.list items) co := by
  cases h with
  | idle _ _ hd => exact .inl ⟨rfl, fun h => hd (h ▸ hi)⟩
  | returning _ hi' hg => exact .inr ⟨_, _, rfl, Option.some.inj (hi.symm.trans hi'), hg⟩
  | asked _ hi' | calling _ hi' | resting _ hi' => cases hi.symm.trans hi'

theorem calling_of_state (h : p.Fits c) (hs : c.state = .running) (hi : c.inside = none) :
    ∃ call co, p = .calling call co ∧ call.isCallable ∧ c.Holds call co := by
  cases h with
  | calling _ _ hc hg => exact ⟨_, _, rfl, hc, hg⟩
  | idle _ hr => cases hi ▸ hr hs
  | asked hs' | resting hs' => grind
  | returning _ hi' => cases hi.symm.trans hi'

/-- A tick makes the call that is asked for, unless a worker has the guest. -/
theorem updated (h : p.Fits c) {free : Bool} (hc : free → c.state ≠ .synchronizedCall)
    (hr : c.state = .running → c.inside.isSome) : p.Next (.updated free) p := by
  cases h with
  | idle => exact .updated
  | asked hs =>
    cases free with
    | false => exact .deferred
    | true => exact absurd hs (hc rfl)
  | calling hs hi =>
    have hinside := hr hs
    rw [hi] at hinside
    cases hinside
  | resting | returning => exact .passed trivial

/-- A run stays in its phase while its guest is left alone. -/
theorem passed (h : p.Fits c) {next : State} (hs : c.Passes next) : p.Fits { c with state := next } := by
  cases hs with
  | resume hs =>
    cases h.idle_of_state (hs.imp_right fun h => h.imp_right .inl)
    cases h with
    | idle _ _ hi => exact .idle ⟨nofun, nofun, nofun⟩ nofun hi
  | «return» hs =>
    obtain ⟨items, co, rfl, hi, hg⟩ := h.answered_of_state (.inr hs)
    exact .resting (.inl rfl) hi hg
  | stop hs =>
    cases h with
    | idle _ _ hi => exact .idle ⟨nofun, nofun, nofun⟩ nofun hi
    | asked hs' | calling hs' => grind
    | resting _ hi hg => exact .resting (.inr (.inr rfl)) hi hg
    | returning _ hi hg => exact .returning (.inr rfl) hi hg

/-- So it does while a resume is put off. -/
theorem parked (h : p.Fits c) (hi : c.inside = none) {next : State} (hs : c.state.Parks next) :
    p.Next .parked p ∧ p.Fits { c with state := next } := by
  cases hs with
  | yielded hs =>
    cases h.idle_of_state (.inr (.inr (.inr hs)))
    exact ⟨.parked, .idle ⟨nofun, nofun, nofun⟩ nofun (by rw [hi]; nofun)⟩
  | «return» hs =>
    obtain ⟨items, co, rfl, -, hg⟩ := h.answered_of_state (.inl hs)
    exact ⟨.passed trivial, .resting (.inr (.inl rfl)) hi hg⟩

end Phase.Fits

/-! ### Resumes and calls -/

theorem Phase.After.exists (r : Except Fault Outcome) (left : Thread) : ∃ p, Phase.After r left p := by
  by_cases h : ∃ call, r = .ok (.yielded call) ∧ call.isCallable
  · obtain ⟨call, hr, hc⟩ := h
    exact ⟨_, .asked hr hc⟩
  · exact ⟨_, .idle fun call hr hc => h ⟨call, hr, hc⟩⟩

theorem Phase.After.not_calling {r : Except Fault Outcome} {left : Thread} (h : Phase.After r left p) (call : Val)
    (co : Thread) : p ≠ .calling call co := by
  cases h <;> nofun

/-- A kernel that has yielded a callable asks for a call, and no other does. -/
theorem Guest.Ran.phase {σ : Type} {host : Host σ} {steps : Nat} {d : Delivery} {g : Guest} {world : σ} {v : Val}
    {co left : Thread} {r : Except Fault Outcome} {w : Wish} {next : State}
    (h : g.Ran host steps d world v co r left) (hr : (g.resume host steps d world).1 = .ok (.yielded w))
    (hn : w.Leads next) (c : Situation) : ∃ q, Phase.After r left q ∧
      q.Fits { c with state := next, guest := some (g.resume host steps d world).2.1, inside := none } := by
  obtain ⟨call, hy, hw, hpending⟩ := h.yielded w hr
  by_cases hc : call.isCallable
  · rw [hw, wish_call.2 hc] at hn
    exact ⟨_, .asked hy hc, .asked hn rfl hc ⟨_, rfl, hpending hc, h.kernel⟩⟩
  · refine ⟨_, .idle fun call' hy' => ?_, ?_⟩
    · cases hy.symm.trans hy'
      exact hc
    · have hne : w ≠ .call := fun h => hc (wish_call.1 (hw ▸ h))
      cases w with
      | call => exact absurd rfl hne
      | shutdown reboot => cases hn
      | sleep seconds => rcases hn with rfl | rfl <;> exact .idle ⟨nofun, nofun, nofun⟩ nofun nofun
      | other => rcases hn with rfl | rfl <;> exact .idle ⟨nofun, nofun, nofun⟩ nofun nofun

/-- A call that is made comes to something, which is kept if it is a list. -/
theorem Guest.invocation_made {σ : Type} (host : Host σ) {g : Guest} (world : σ) {call : Val}
    (hp : g.pending = some call) (hc : call.isCallable) : ∃ r, g.invocation host world = [.invoked call r] ∧
      ((g.invoke host world).1 = .ok () →
        ∃ items, r = .ok (.list items) ∧ (g.invoke host world).2.1.pending = some (.list items)) := by
  obtain ⟨⟨n, args⟩, hcall⟩ : ∃ x, call.callable? = some x := by cases call <;> first | exact ⟨_, rfl⟩ | cases hc
  unfold invocation invoke
  rw [hp]
  dsimp only
  rw [hcall]
  dsimp only
  refine ⟨_, rfl, fun hr => ?_⟩
  unfold keepResult at hr ⊢
  split at hr
  · next items hi => exact ⟨items, hi, rfl⟩
  · cases hr
  · cases hr

/-- What a resume is begun with is what the phase allows to be delivered. -/
theorem Phase.Fits.resumption (h : p.Fits a) (ha : a.AtYield) {σ : Type} {host : Host σ} {steps : Nat}
    {d : Delivery} {g : Guest} {world : σ} (hi : a.inside = some d) (hg : a.guest = some g) :
    ∃ v co r left, g.Ran host steps d world v co r left ∧
      ∀ q, Phase.After r left q → p.Runs (g.resumption host steps d world) q := by
  obtain ⟨co, hk, -⟩ := ha g hg
  rcases h.of_inside hi with ⟨rfl, hd⟩ | ⟨items, co', rfl, rfl, g', hg', hpending, hk'⟩
  · obtain ⟨v, hv⟩ : ∃ v, (g.delivery d).1 = .ok v := by
      cases d with
      | nothing | signal s => exact ⟨_, rfl⟩
      | result => exact absurd rfl hd
    obtain ⟨r, left, hran⟩ := resume_ran host steps world hk hv
    refine ⟨v, co, r, left, hran, fun q hq => ?_⟩
    rw [hran.log]
    exact (Phase.Next.resumed hd hq).runs
  · cases hg.symm.trans hg'
    have hv : (g.delivery .result).1 = .ok (.list items) := by
      unfold delivery
      dsimp only
      rw [hpending]
    obtain ⟨r, left, hran⟩ := resume_ran host steps world hk' hv
    refine ⟨_, co', r, left, hran, fun q hq => ?_⟩
    rw [hran.log]
    exact (Phase.Next.delivered hq).runs

/-! ### Steps -/

/-- Every step keeps to the phases. -/
theorem Step.phases (h : Step site R a l b) (ha : a.AtYield) (hb : b.AtYield) (hp : p.Fits a) :
    ∃ q, p.Runs l q ∧ q.Fits b := by
  have hne : p ≠ .failed := by cases hp <;> nofun
  cases h with
  | accepted hs hr => exact ⟨p, (Phase.Next.arrival (o := .accepted _) trivial hne).runs, hp.same rfl rfl rfl⟩
  | refused => exact ⟨p, (Phase.Next.arrival (o := .refused _) trivial hne).runs, hp⟩
  | updated hc hr => exact ⟨p, (hp.updated hc hr).runs, hp⟩
  | passed hs => exact ⟨p, .nil p, hp.passed hs⟩
  | idle hg hi hn hc =>
    cases hp.idle_of_none hg
    refine ⟨_, .nil _, ?_⟩
    rcases hn with rfl | rfl <;> exact .idle ⟨nofun, nofun, nofun⟩ nofun (by rw [hi]; nofun)
  | started hs hg hi hm hb =>
    cases hp.idle_of_none hg
    exact ⟨_, .nil _, .idle ⟨nofun, nofun, nofun⟩ nofun (by rw [hi]; nofun)⟩
  | parked hi hs => exact ⟨p, (hp.parked hi hs).1.runs, (hp.parked hi hs).2⟩
  | beganSignal hs hi =>
    cases hp.idle_of_state (.inr (.inr (.inr hs)))
    have hd : a.queue.pop.1.elim Delivery.nothing Delivery.signal ≠ .result := by cases a.queue.pop.1 <;> nofun
    exact ⟨_, (Phase.Next.began hd).runs, .idle ⟨nofun, nofun, nofun⟩ (fun _ => rfl) fun h => hd (Option.some.inj h)⟩
  | beganResult hs hi =>
    obtain ⟨items, co, rfl, -, hg⟩ := hp.answered_of_state (.inl hs)
    exact ⟨_, (Phase.Next.passed (o := .began .result) trivial).runs, .returning (.inl rfl) rfl hg⟩
  | yielded hs hi hg hr hn =>
    obtain ⟨v, co, r, left, hran, hruns⟩ := hp.resumption ha hi hg
    obtain ⟨q, hq, hfits⟩ := hran.phase hr hn a
    exact ⟨q, hruns q hq, hfits⟩
  | ended hi hg =>
    obtain ⟨v, co, r, left, hran, hruns⟩ := hp.resumption ha hi hg
    obtain ⟨q, hq⟩ := Phase.After.exists r left
    exact ⟨_, (hruns q hq).append (Phase.Next.closed hq.not_calling).runs, .closed⟩
  | calling hs hi =>
    obtain ⟨call, co, rfl, hc, hg⟩ := hp.asked_of_state hs
    exact ⟨_, Phase.Next.calling.runs, .calling rfl hi hc hg⟩
  | @returned m g hs hi hg hr =>
    obtain ⟨call, co, rfl, hc, g', hg', hpending, hk⟩ := hp.calling_of_state hs hi
    cases hg.symm.trans hg'
    obtain ⟨r, hlog, hr'⟩ := invocation_made (host site) m hpending hc
    obtain ⟨items, rfl, hresult⟩ := hr' hr
    rw [hlog]
    exact ⟨_, Phase.Next.answered.runs, .resting (.inl rfl) hi ⟨_, rfl, hresult, invoke_kernel.trans hk⟩⟩
  | @failed m g hs hi hg =>
    obtain ⟨call, co, rfl, hc, g', hg', hpending, hk⟩ := hp.calling_of_state hs hi
    cases hg.symm.trans hg'
    obtain ⟨r, hlog, -⟩ := invocation_made (host site) m hpending hc
    rw [hlog]
    by_cases hr : ∃ items, r = .ok (.list items)
    · obtain ⟨items, rfl⟩ := hr
      exact ⟨_, .cons .answered (Phase.Next.closed fun _ _ h => by cases h).runs, .closed⟩
    · exact ⟨_, .cons (.failed fun items h => hr ⟨items, h⟩) (Phase.Next.closed fun _ _ h => by cases h).runs, .closed⟩
  | closed hs hi =>
    refine ⟨_, (Phase.Next.closed fun call co h => ?_).runs, .closed⟩
    subst h
    cases hp with
    | calling hs' => exact hs hs'
  | loaded hr hs hg hi hm hb' hcode hrun hrest hst hl =>
    cases hp.idle_of_none hg
    obtain ⟨co, slot, -, hslot, rfl⟩ := restoreGuest_ok hrest
    have hholds := restorePending_holds hrun hslot
    rcases hrun with rfl | rfl | rfl | rfl
    · exact ⟨_, (Phase.Next.loaded (.inl rfl)).runs, .idle ⟨nofun, nofun, nofun⟩ nofun (by rw [hi]; nofun)⟩
    · exact ⟨_, (Phase.Next.loaded (.inr rfl)).runs, .idle ⟨nofun, nofun, nofun⟩ nofun (by rw [hi]; nofun)⟩
    · obtain ⟨call, hpending, hc⟩ := hholds _
      exact ⟨_, (Phase.Next.loadedCall hpending rfl).runs, .asked rfl hi hc ⟨_, rfl, hpending, rfl⟩⟩
    · obtain ⟨items, hpending⟩ := hholds _
      exact ⟨_, (Phase.Next.loadedReturn hpending rfl).runs, .resting (.inr (.inl rfl)) hi ⟨_, rfl, hpending, rfl⟩⟩

end

/-! ## What the phases say -/

/-- The run has ended, or nothing more has happened. -/
def Over (l : List Occurrence) : Prop :=
  ∀ o ∈ l.head?, o = .closed

theorem Over.nil : Over [] :=
  fun _ ho => absurd ho (Option.not_mem_none _)

theorem Over.closed (l : List Occurrence) : Over (.closed :: l) :=
  fun _ ho => (Option.some.inj ho).symm

/-- What follows a call that the kernel has asked for, and whose result it awaits as a coroutine. -/
inductive Answered (call : Val) (co : Thread) : List Occurrence → Prop
  /-- The call waits until the run ends, or it is still waiting. -/
  | waiting {ws rest : List Occurrence} (hw : ∀ o ∈ ws, o.Waits) (ho : Over rest) : Answered call co (ws ++ rest)
  /-- The first update that finds the guest free makes the call, which fails and ends the run. -/
  | failed {ws ss rest : List Occurrence} {r : Except Val Val} (hw : ∀ o ∈ ws, o.Waits) (hs : ∀ o ∈ ss, o.Arrival)
      (hr : ∀ items, r ≠ .ok (.list items)) :
      Answered call co (ws ++ .updated true :: (ss ++ .invoked call r :: .closed :: rest))
  /-- The first update that finds the guest free makes the call, and the run ends before the list that it returns is
  delivered, or it has not been delivered yet. -/
  | returned {ws ss ps rest : List Occurrence} {items : List Val} (hw : ∀ o ∈ ws, o.Waits) (hs : ∀ o ∈ ss, o.Arrival)
      (hp : ∀ o ∈ ps, o.Passes) (ho : Over rest) :
      Answered call co (ws ++ .updated true :: (ss ++ .invoked call (.ok (.list items)) :: (ps ++ rest)))
  /-- The first update that finds the guest free makes the call, and the list that it returns is what the coroutine is
  resumed with next, as the value of the `yield` at which it waits. -/
  | delivered {ws ss ps rest : List Occurrence} {items : List Val} {r : Except Fault Outcome} {left : Thread}
      (hw : ∀ o ∈ ws, o.Waits) (hs : ∀ o ∈ ss, o.Arrival) (hp : ∀ o ∈ ps, o.Passes) (ht : co.Takes (.list items)) :
      Answered call co (ws ++ .updated true :: (ss ++ .invoked call (.ok (.list items)) ::
        (ps ++ .resumed .result (.list items) co r left :: rest)))

section

variable {p q : Phase} {l : List Occurrence} {call : Val} {items : List Val} {co : Thread}

theorem Answered.cons {o : Occurrence} (ho : o.Waits) (h : Answered call co l) : Answered call co (o :: l) := by
  have hcons {ws : List Occurrence} (hw : ∀ o ∈ ws, o.Waits) : ∀ x ∈ o :: ws, x.Waits := List.forall_mem_cons.2 ⟨ho, hw⟩
  cases h with
  | waiting hw ho => exact .waiting (hcons hw) ho
  | failed hw hs hr => exact .failed (hcons hw) hs hr
  | returned hw hs hp ho => exact .returned (hcons hw) hs hp ho
  | delivered hw hs hp ht => exact .delivered (hcons hw) hs hp ht

/-- A result waits to be delivered until it is, unless the run ends first. -/
theorem Phase.Runs.answered (h : (Phase.answered items co).Runs l q) : ∃ ps rest, l = ps ++ rest ∧
    (∀ o ∈ ps, o.Passes) ∧ (Over rest ∨ ∃ r left rest', rest = .resumed .result (.list items) co r left :: rest') := by
  have hpass {o : Occurrence} {l : List Occurrence} (ho : o.Passes) (ih : ∃ ps rest, l = ps ++ rest ∧
      (∀ o ∈ ps, o.Passes) ∧ (Over rest ∨ ∃ r left rest', rest = .resumed .result (.list items) co r left :: rest')) :
      ∃ ps rest, o :: l = ps ++ rest ∧ (∀ o ∈ ps, o.Passes) ∧
        (Over rest ∨ ∃ r left rest', rest = .resumed .result (.list items) co r left :: rest') := by
    obtain ⟨ps, rest, rfl, hp, hrest⟩ := ih
    exact ⟨o :: ps, rest, rfl, List.forall_mem_cons.2 ⟨ho, hp⟩, hrest⟩
  induction l with
  | nil => exact ⟨[], [], rfl, List.forall_mem_nil _, .inl .nil⟩
  | cons o l ih =>
    cases h with
    | cons hn hl =>
      cases hn with
      | closed => exact ⟨[], _, rfl, List.forall_mem_nil _, .inl (.closed _)⟩
      | arrival ho => exact hpass ho.passes (ih hl)
      | passed ho => exact hpass ho (ih hl)
      | delivered hp => exact ⟨[], _, rfl, List.forall_mem_nil _, .inr ⟨_, _, _, rfl⟩⟩

/-- Signals may arrive while a call is made, which then comes to something. -/
theorem Phase.Runs.calling (h : (Phase.calling call co).Runs l q) (hq : ∀ call co, q ≠ .calling call co) :
    ∃ ss r rest, l = ss ++ .invoked call r :: rest ∧ (∀ o ∈ ss, o.Arrival) ∧
      ((∃ items, r = .ok (.list items) ∧ (Phase.answered items co).Runs rest q) ∨
        (∀ items, r ≠ .ok (.list items)) ∧ Phase.failed.Runs rest q) := by
  induction l with
  | nil =>
    cases h
    exact absurd rfl (hq _ _)
  | cons o l ih =>
    cases h with
    | cons hn hl =>
      cases hn with
      | closed hp => exact absurd rfl (hp _ _)
      | arrival ho =>
        obtain ⟨ss, r, rest, rfl, hs, hrest⟩ := ih hl
        exact ⟨o :: ss, r, rest, rfl, List.forall_mem_cons.2 ⟨ho, hs⟩, hrest⟩
      | answered => exact ⟨[], _, l, rfl, List.forall_mem_nil _, .inl ⟨_, rfl, hl⟩⟩
      | failed hr => exact ⟨[], _, l, rfl, List.forall_mem_nil _, .inr ⟨hr, hl⟩⟩

/-- A call that fails ends the run at once. -/
theorem Phase.Runs.failed (h : Phase.failed.Runs l q) (hq : q ≠ .failed) : ∃ rest, l = .closed :: rest := by
  cases h with
  | nil => exact absurd rfl hq
  | cons hn _ =>
    cases hn with
    | closed => exact ⟨_, rfl⟩
    | arrival _ hp => exact absurd rfl hp

/-- A call that has been asked for is answered. -/
theorem Phase.Runs.asked (h : (Phase.asked call co).Runs l q) (hq : ∀ call co, q ≠ .calling call co)
    (hf : q ≠ .failed) (hco : co.AtYield) : Answered call co l := by
  have hnil : ∀ o ∈ ([] : List Occurrence), o.Waits := List.forall_mem_nil _
  induction l with
  | nil => exact .waiting hnil .nil
  | cons o l ih =>
    cases h with
    | cons hn hl =>
      cases hn with
      | closed => exact .waiting hnil (.closed _)
      | arrival ho => exact (ih hl).cons ho.waits
      | deferred => exact (ih hl).cons trivial
      | calling =>
        obtain ⟨ss, r, rest, rfl, hs, ⟨items, rfl, hrest⟩ | ⟨hr, hrest⟩⟩ := hl.calling hq
        · obtain ⟨ps, rest, rfl, hp, ho | ⟨r, left, rest, rfl⟩⟩ := hrest.answered
          · exact .returned hnil hs hp ho
          · exact .delivered hnil hs hp (hco.takes _)
        · obtain ⟨rest, rfl⟩ := hrest.failed hf
          exact .failed hnil hs hr

/-- What has been asked for before, as far as a phase knows. -/
theorem Phase.Runs.asks (h : Phase.idle.Runs l q) :
    (q = .asked call co → ∃ before o ws, l = before ++ o :: ws ∧ o.Asks call co ∧ ∀ o ∈ ws, o.Waits) ∧
      (q = .calling call co → ∃ before o ws ss, l = before ++ o :: (ws ++ .updated true :: ss) ∧ o.Asks call co ∧
        (∀ o ∈ ws, o.Waits) ∧ ∀ o ∈ ss, o.Arrival) := by
  induction l using List.reverseRecOn generalizing q with
  | nil =>
    cases h
    exact ⟨nofun, nofun⟩
  | append_singleton l o ih =>
    obtain ⟨p, hl, ho⟩ := h.split
    obtain ⟨hasked, hcalling⟩ := ih hl
    cases ho with
    | cons hn hend =>
      cases hend
      have hafter {d : Delivery} {v : Val} {co' : Thread} {r : Except Fault Outcome} {left : Thread}
          (hp : After r left q) (hq : q = .asked call co) : ∃ before o ws,
            l ++ [.resumed d v co' r left] = before ++ o :: ws ∧ o.Asks call co ∧ ∀ o ∈ ws, o.Waits := by
        subst hq
        cases hp with
        | asked hr hc => exact ⟨l, _, [], rfl, ⟨hr, hc, rfl⟩, List.forall_mem_nil _⟩
      refine ⟨fun hq => ?_, fun hq => ?_⟩
      · have hlater {o : Occurrence} (hp : p = .asked call co) (ho : o.Waits) : ∃ before o' ws,
            l ++ [o] = before ++ o' :: ws ∧ o'.Asks call co ∧ ∀ o ∈ ws, o.Waits := by
          obtain ⟨before, o', ws, rfl, ha, hw⟩ := hasked hp
          exact ⟨before, o', ws ++ [o], List.append_assoc .., ha,
            List.forall_mem_append.2 ⟨hw, List.forall_mem_singleton.2 ho⟩⟩
        cases hn with
        | arrival ho => exact hlater hq ho.waits
        | deferred => exact hlater hq trivial
        | resumed _ hp => exact hafter hp hq
        | delivered hp => exact hafter hp hq
        | loadedCall hp hk =>
          cases hq
          exact ⟨l, _, [], rfl, ⟨rfl, hp, hk⟩, List.forall_mem_nil _⟩
        | _ => cases hq
      · cases hn with
        | arrival ho =>
          obtain ⟨before, o', ws, ss, rfl, ha, hw, hs⟩ := hcalling hq
          refine ⟨before, o', ws, ss ++ [_], ?_, ha, hw,
            List.forall_mem_append.2 ⟨hs, List.forall_mem_singleton.2 ho⟩⟩
          simp only [List.append_assoc, List.cons_append]
        | calling =>
          cases hq
          obtain ⟨before, o', ws, rfl, ha, hw⟩ := hasked rfl
          refine ⟨before, o', ws, [], ?_, ha, hw, List.forall_mem_nil _⟩
          simp only [List.append_assoc, List.cons_append]
        | resumed _ hp | delivered hp => cases hp <;> cases hq
        | _ => cases hq

end

/-! ## All histories -/

section

variable {ν : Type} {site : Site ν} {m : Machine ν} {log : List Occurrence}

theorem Occurrence.Asks.next {p q : Phase} {o : Occurrence} {call : Val} {co : Thread} (h : p.Next o q)
    (ho : o.Asks call co) : q = .asked call co := by
  have hafter {r : Except Fault Outcome} {left : Thread} {q : Phase} (hp : Phase.After r left q)
      (ho : r = .ok (.yielded call) ∧ call.isCallable ∧ left = co) : q = .asked call co := by
    obtain ⟨rfl, hc, rfl⟩ := ho
    cases hp with
    | asked hr => cases hr; rfl
    | idle hr => exact absurd hc (hr call rfl)
  cases h with
  | resumed _ hp | delivered hp => exact hafter hp ho
  | loadedCall hp hk =>
    obtain ⟨-, hp', hk'⟩ := ho
    cases hp.symm.trans hp'
    cases hk.symm.trans hk'
    rfl
  | loaded hs => rcases hs with rfl | rfl <;> cases ho.1
  | loadedReturn => cases ho.1
  | closed | updated | parked | began | deferred | calling | answered | failed => exact ho.elim
  | arrival ho' | passed ho' => cases o <;> first | exact ho.elim | exact ho'.elim

/-- A kernel that has asked for a call waits at a `yield`. -/
theorem Step.asks_atYield {R : MachineRecord → Prop} {a b : Situation} {l : List Occurrence} (h : Step site R a l b)
    (ha : a.AtYield) (hb : b.AtYield) : ∀ o ∈ l, ∀ call co, o.Asks call co → co.AtYield := by
  have hresumed {σ : Type} {host : Host σ} {steps : Nat} {d : Delivery} {g : Guest} {world : σ}
      (hg : a.guest = some g) : ∀ o ∈ g.resumption host steps d world, ∀ call co, o.Asks call co → co.AtYield := by
    obtain ⟨co, hk, hco⟩ := ha g hg
    obtain ⟨f, fs, hw⟩ := hco.waits
    rcases hd : (g.delivery d).1 with f | v
    · rw [(resume_undelivered hd).1]
      exact List.forall_mem_nil _
    · obtain ⟨r, left, hran⟩ := resume_ran host steps world hk hd
      rw [hran.log]
      rintro o ho call co' ha
      cases List.mem_singleton.1 ho
      obtain ⟨hr, -, rfl⟩ := ha
      exact hran.atYield hco.nodes hw.control hr
  have hcall {σ : Type} {host : Host σ} {g : Guest} {world : σ} :
      ∀ o ∈ g.invocation host world, ∀ call co, o.Asks call co → co.AtYield := by
    unfold invocation
    split
    · exact List.forall_mem_nil _
    · split
      · exact List.forall_mem_nil _
      · exact List.forall_mem_singleton.2 fun _ _ h => h.elim
  have hnone : ∀ call co, Occurrence.closed.Asks call co → co.AtYield := fun _ _ h => h.elim
  cases h with
  | passed | idle | started => exact List.forall_mem_nil _
  | accepted | refused | updated | parked | beganSignal | beganResult | calling | closed =>
    exact List.forall_mem_singleton.2 fun _ _ h => h.elim
  | yielded _ _ hg => exact hresumed hg
  | ended _ hg => exact List.forall_mem_append.2 ⟨hresumed hg, List.forall_mem_singleton.2 hnone⟩
  | returned => exact hcall
  | failed => exact List.forall_mem_append.2 ⟨hcall, List.forall_mem_singleton.2 hnone⟩
  | loaded =>
    refine List.forall_mem_singleton.2 fun call co h => ?_
    obtain ⟨co', hk, hco⟩ := hb _ rfl
    cases hk.symm.trans h.2.2
    exact hco

/-- Whatever has happened went through the phases of calls. -/
theorem History.phases (h : History site m log) : (∃ p, Phase.idle.Runs log p ∧ p.Fits m.situation) ∧
    ∀ o ∈ log, ∀ call co, o.Asks call co → co.AtYield := by
  refine (h.invariant_atYield (fun _ c log => (∃ p, Phase.idle.Runs log p ∧ p.Fits c) ∧
    ∀ o ∈ log, ∀ call co, o.Asks call co → co.AtYield) (fun _ _ _ => ?_) fun hP ha hb hs => ?_).1
  · exact ⟨⟨_, .nil _, .idle ⟨nofun, nofun, nofun⟩ nofun nofun⟩, List.forall_mem_nil _⟩
  · obtain ⟨⟨p, hruns, hfits⟩, hasks⟩ := hP
    obtain ⟨q, hnext, hq⟩ := hs.phases ha hb hfits
    exact ⟨⟨q, hruns.append hnext, hq⟩, List.forall_mem_append.2 ⟨hasks, hs.asks_atYield ha hb⟩⟩

/-- What holds of the calls of a machine, after whatever has happened. -/
structure Machine.CallsAnswered (site : Site ν) (m : Machine ν) (log : List Occurrence) : Prop where
  /-- A call that the kernel asks for is made by the first update that finds the guest free, and the list that it
  returns becomes the value of the `yield` that asked for it, unless the run ends first. -/
  answered : ∀ before o after call co, log = before ++ o :: after → o.Asks call co →
    co.AtYield ∧ Answered call co after
  /-- A call is made in an update, and has been asked for since the call before it. -/
  asked : ∀ before call r after, log = before ++ .invoked call r :: after → ∃ earlier o ws ss co,
    before = earlier ++ o :: (ws ++ .updated true :: ss) ∧ o.Asks call co ∧ (∀ o ∈ ws, o.Waits) ∧
      ∀ o ∈ ss, o.Arrival
  /-- Workers make no calls. -/
  workers : ∀ call r, .invoked call r ∉ m.finishTaskLog site ∧ ∀ epoch, .invoked call r ∉ m.beginTaskLog site epoch

/-- Calls are made exactly once, and answered at the `yield` that asked for them. -/
theorem calls_answered (h : History site m log) : m.CallsAnswered site log := by
  obtain ⟨⟨p, hruns, hfits⟩, hasks⟩ := h.phases
  have hfailed : p ≠ .failed := by
    rintro rfl
    cases hfits
  have hcalling : ∀ call co, p ≠ .calling call co := by
    rintro call co rfl
    cases hfits with
    | calling hs hi =>
      have hinside := h.sound.inside_states.2 hs
      rw [show m.inside = none from hi] at hinside
      cases hinside
  refine ⟨fun before o after call co hl ho => ?_, fun before call r after hl => ?_, fun call r => ⟨?_, fun epoch => ?_⟩⟩
  · subst hl
    have hco := hasks o (List.mem_append_right _ List.mem_cons_self) call co ho
    obtain ⟨q, -, hrest⟩ := hruns.split
    cases hrest with
    | cons hn hrest =>
      cases ho.next hn
      exact ⟨hco, hrest.asked hcalling hfailed hco⟩
  · subst hl
    obtain ⟨q, hbefore, hrest⟩ := hruns.split
    cases hrest with
    | cons hn _ =>
      cases hn with
      | answered | failed =>
        obtain ⟨earlier, o, ws, ss, rfl, ha, hw, hs⟩ := hbefore.asks.2 rfl
        exact ⟨earlier, o, ws, ss, _, rfl, ha, hw, hs⟩
      | arrival ho | passed ho => exact ho.elim
  · unfold finishTaskLog Guest.resumption endLog
    split
    · split <;> split <;> simp
    · exact List.not_mem_nil
  · unfold beginTaskLog
    split
    · simp
    · split
      · simp
      · split <;> simp

end

/-- A call has been made. -/
def Occurrence.isCall : Occurrence → Bool
  | .invoked .. => true
  | _ => false

/-- The kernel has been resumed with the result of a call. -/
def Occurrence.isReturn : Occurrence → Bool
  | .resumed .result .. => true
  | _ => false

/-- A machine whose kernel is to ask for the echo of a number. -/
def echoing : Machine Console :=
  ((Machine.fresh consoleSite ⟨none, Catalog.defaultBoot,
    "yield\nlet r = yield component.invoke(\"loopback\", \"echo\", 7)\nyield r", []⟩ ⟨0, 0⟩).start
      consoleSite).2.update consoleSite

/-- The machine once the call has been made. -/
def echoed : Machine Console :=
  ((Machine.beginTask consoleSite 0 { echoing with waiting := echoing.waiting.erase 0 }).finishTask
    consoleSite).update consoleSite

/-- The call is made once, and its result is returned once. -/
theorem echoing_answered : ∃ (m : Machine Console) (log : List Occurrence), History consoleSite m log ∧
    log.countP Occurrence.isCall = 1 ∧ log.countP Occurrence.isReturn = 1 ∧ m.CallsAnswered consoleSite log := by
  have hfree : echoing.inside.isNone ∧ 0 ∈ echoing.waiting := by decide +kernel
  have hfree' : echoed.inside.isNone ∧ 0 ∈ echoed.waiting := by decide +kernel
  have hechoing : History consoleSite echoing _ := (History.fresh consoleSite _ _).start.update
  have hechoed : History consoleSite echoed _ :=
    (hechoing.beginTask (Option.isNone_iff_eq_none.1 hfree.1) hfree.2).finishTask.update
  have hrun := (hechoed.beginTask (Option.isNone_iff_eq_none.1 hfree'.1) hfree'.2).finishTask
  exact ⟨_, _, hrun, by decide +kernel, by decide +kernel, calls_answered hrun⟩

end VirtualComputer
