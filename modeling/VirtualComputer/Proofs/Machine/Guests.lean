import VirtualComputer.Proofs.Guest.Sending
import VirtualComputer.Proofs.Machine.Lifecycle

/-!
# Guests and their machines

A guest whose resume comes to a `yield` waits there, with the call that it asks for in its pending slot
(`resume_yields`), and a call that succeeds leaves its result in the slot (`invoke_ok`).  A resume changes nothing of
the machine but what it has printed, and the world goes on meanwhile if a worker is inside it (`resume_printed`); a
synchronized call can also stop the machine (`invoke_called`).
-/

namespace VirtualComputer

/-! ## What a guest comes to -/

namespace Guest

variable {σ : Type} {host : Host σ} {g : Guest} {world : σ}

/-- Only a call is put into the pending slot. -/
theorem progress_yielded {guarded : Bool} {o : Outcome} {w : Wish} (h : (progress guarded o g).1 = .yielded w) :
    ∃ v, o = .yielded v ∧ w = wish v ∧ (progress guarded o g).2.kernel = g.kernel ∧
      (w = .call → ∃ v, (progress guarded o g).2.pending = some v ∧ v.isCallable) := by
  cases o with
  | returned v | threw v =>
    rw [progress] at h
    cases guarded <;> cases h
  | yielded v =>
    cases h
    refine ⟨v, rfl, rfl, ?_, fun hw => ?_⟩
    · rw [progress]
      cases v.isCallable <;> rfl
    · have hv : v.isCallable := by
        cases v <;> cases hw <;> rfl
      rw [progress, hv]
      exact ⟨v, rfl, hv⟩

theorem resumeThread_yields {steps : Nat} {d : Val} {co : Thread} {w : Wish}
    (h : (resumeThread host steps d co g world).1 = .ok (.yielded w)) :
    (resumeThread host steps d co g world).2.1.Waits ∧
      (w = .call → ∃ v, (resumeThread host steps d co g world).2.1.pending = some v ∧ v.isCallable) := by
  unfold resumeThread at h ⊢
  dsimp only at h ⊢
  obtain ⟨r, hr⟩ : ∃ r, co.resume (Runtime.ofHost host g.globals g.baseline ⟨g.limit, false⟩) steps d
      ⟨g.baseline + co.footprint, world⟩ = r := ⟨_, rfl⟩
  have hstatus := @Coroutine.resume_yielded _ (Runtime.ofHost host g.globals g.baseline ⟨g.limit, false⟩) steps d co
    ⟨g.baseline + co.footprint, world⟩
  rw [hr] at h hstatus ⊢
  obtain ⟨f | o, co', s⟩ := r
  · cases h
  · obtain ⟨v, rfl, -, hkernel, hpending⟩ := progress_yielded (Except.ok.inj h)
    exact ⟨⟨co', hkernel, hstatus rfl⟩, hpending⟩

/-- A guest that yields waits, and if it asks for a call, then with the call in the pending slot. -/
theorem resume_yields {steps : Nat} {d : Delivery} {w : Wish} (h : (g.resume host steps d world).1 = .ok (.yielded w)) :
    (g.resume host steps d world).2.1.Waits ∧
      (w = .call → ∃ v, (g.resume host steps d world).2.1.pending = some v ∧ v.isCallable) := by
  unfold resume at h ⊢
  split at h
  · cases h
  · split at h
    · exact resumeThread_yields h
    · cases h

/-- A call changes nothing of a guest but its pending slot and what it counts. -/
theorem invoke_rest (host : Host σ) (g : Guest) (world : σ) :
    ∃ pending used, (g.invoke host world).2.1 = { g with pending, used } := by
  unfold invoke
  dsimp only
  split
  · exact ⟨_, _, rfl⟩
  · split
    · exact ⟨_, _, rfl⟩
    · unfold keepResult
      dsimp only
      split <;> exact ⟨_, _, rfl⟩

theorem invoke_kernel : (g.invoke host world).2.1.kernel = g.kernel := by
  obtain ⟨pending, used, h⟩ := invoke_rest host g world
  rw [h]

theorem invoke_entryPoints : (g.invoke host world).2.1.entryPoints = g.entryPoints := by
  obtain ⟨pending, used, h⟩ := invoke_rest host g world
  rw [h]

/-- The result of a call that succeeds is in the pending slot. -/
theorem invoke_ok (h : (g.invoke host world).1 = .ok ()) :
    ∃ items, (g.invoke host world).2.1.pending = some (.list items) := by
  unfold invoke at h ⊢
  dsimp only at h ⊢
  split at h
  · cases h
  · split at h
    · cases h
    · dsimp only at h ⊢
      unfold keepResult at h ⊢
      split at h
      · exact ⟨_, rfl⟩
      · cases h
      · cases h

end Guest

namespace Machine

variable {ν : Type} {site : Site ν} {m m' : Machine ν}

/-! ## Resumes -/

/-- The world has gone on around a machine, if a worker is inside a resume. -/
def Elapses (m : Machine ν) (outside : ν) : Prop :=
  m.inside = none → outside = m.outside

/-- All that has happened to a machine is that it has told something, and that the world has gone on. -/
def Told (m m' : Machine ν) : Prop :=
  ∃ told outside, m.Elapses outside ∧ m' = { m with told, outside }

theorem Told.of_told (told : List Event) (m : Machine ν) : m.Told { m with told } :=
  ⟨told, m.outside, fun _ => rfl, rfl⟩

theorem Told.refl (m : Machine ν) : m.Told m := .of_told m.told m

theorem Told.trans {m'' : Machine ν} (h : m.Told m') (h' : m'.Told m'') : m.Told m'' := by
  obtain ⟨_, outside, helapses, rfl⟩ := h
  obtain ⟨told, outside', helapses', rfl⟩ := h'
  exact ⟨told, outside', fun hi => (helapses' hi).trans (helapses hi), rfl⟩

/-- All that has happened to a machine is that it has printed something, and that the world has gone on. -/
def Printed (m m' : Machine ν) : Prop :=
  ∃ (texts : List String) (outside : ν), m.Elapses outside ∧ m' = { m.tellAll (texts.map .printed) with outside }

theorem Printed.of_texts (texts : List String) (m : Machine ν) : m.Printed (m.tellAll (texts.map .printed)) :=
  ⟨texts, m.outside, fun _ => rfl, rfl⟩

theorem Printed.refl (m : Machine ν) : m.Printed m := by
  have h := Printed.of_texts [] m
  rwa [tellAll, List.map_nil, List.append_nil] at h

theorem Printed.trans {m'' : Machine ν} (h : m.Printed m') (h' : m'.Printed m'') : m.Printed m'' := by
  obtain ⟨texts, outside, helapses, rfl⟩ := h
  obtain ⟨more, outside', helapses', rfl⟩ := h'
  refine ⟨texts ++ more, outside', fun hi => (helapses' hi).trans (helapses hi), ?_⟩
  rw [List.map_append, tellAll, tellAll, tellAll, List.append_assoc]

theorem Printed.told (h : m.Printed m') : m.Told m' := by
  obtain ⟨texts, outside, helapses, rfl⟩ := h
  exact ⟨_, outside, helapses, rfl⟩

/-- Reading a time lets the world go on. -/
theorem later_printed (site : Site ν) (n : Native) (m : Machine ν) : m.Printed ((host site).later n m) := by
  dsimp only [host]
  split
  · next hinside =>
    refine ⟨[], site.later n m.outside, fun hi => ?_, ?_⟩
    · rw [hi] at hinside
      cases hinside
    · rw [List.map_nil, tellAll, List.append_nil]
  · exact .refl m

/-- Where nothing is sent, the machine only prints something. -/
theorem printed_of_reaches (h : (host site).Reaches m 0 m') : m.Printed m' := by
  generalize hn : 0 = n at h
  induction h with
  | refl => exact .refl m
  | print _ text ih => exact (ih hn).trans (.of_texts [text] _)
  | send => cases hn
  | later _ reader ih => exact (ih hn).trans (later_printed site reader _)

theorem boot_printed (site : Site ν) (g : Guest) (program : Stmt) (m : Machine ν) :
    m.Printed (g.boot (host site) site.steps program m).2.2 :=
  printed_of_reaches (g.boot_reaches _ _ program m)

/-- A resume of the guest only prints something, and takes its time. -/
theorem resume_printed (site : Site ν) (g : Guest) (d : Delivery) (m : Machine ν) :
    m.Printed (g.resume (host site) site.steps d m).2.2 :=
  printed_of_reaches (g.resume_reaches _ _ d m)

theorem finishTask_idle (site : Site ν) (hi : m.inside = none) : finishTask site m = m := by
  rw [finishTask, hi]

/-- What a task leaves that finishes: the resume has printed something and has been charged for. -/
theorem finishTask_resumed (site : Site ν) {d : Delivery} {g : Guest} (hi : m.inside = some d)
    (hg : m.guest = some g) :
    ∃ (texts : List String) (outside : ν),
      finishTask site m = react site (g.resume (host site) site.steps d m).1
        { m.tellAll (texts.map .printed) with
          guest := some (g.resume (host site) site.steps d m).2.1
          ledger := m.ledger.charge (site.elapsed outside)
          task := false
          inside := none
          outside } := by
  obtain ⟨texts, outside, -, hprinted⟩ := resume_printed site g d m
  refine ⟨texts, outside, ?_⟩
  unfold finishTask
  rw [hi]
  dsimp only
  unfold runGuest
  rw [hg]
  dsimp only
  rw [hprinted]
  rfl

/-! ## Synchronized calls -/

/-- All that has happened to the lifecycle is that the machine may have been stopped. -/
def Called (m m' : Machine ν) : Prop :=
  m'.lifecycle = m.lifecycle ∨ m'.lifecycle = { m.lifecycle with state := .stopping }

/-- The machine is making a call, or has been stopped by it. -/
def Calling (m : Machine ν) : Prop :=
  m.state = .running ∨ m.state = .stopping

theorem Called.refl (m : Machine ν) : m.Called m := .inl rfl

theorem Called.trans {m'' : Machine ν} (h : m.Called m') (h' : m'.Called m'') : m.Called m'' := by
  rcases h' with h' | h' <;> rcases h with h | h <;> rw [Called, h', h]
  · exact .inl rfl
  · exact .inr rfl
  · exact .inr rfl
  · exact .inr rfl

theorem Called.calling (h : m.Called m') (hm : m.Calling) : m'.Calling := by
  rcases h with h | h
  · have hs : m'.state = m.state := congrArg Lifecycle.state h
    rw [Calling, hs]
    exact hm
  · exact .inr (congrArg Lifecycle.state h)

theorem stop_called (h : m.Calling) : m.Called m.stop.2 := by
  unfold stop
  rcases h with h | h <;> rw [h]
  · exact .inr rfl
  · exact .inl rfl

/-- Of what a node may ask of a machine that is calling it, only a stop changes the lifecycle. -/
theorem grant_called (r : Request) (h : m.Calling) : m.Called (m.grant r).2 := by
  cases r with
  | signal s => exact .inl (signal_lifecycle s m)
  | receive msg =>
    exact handle_of (P := m.Called) msg (.refl m) (fun s => .inl (signal_lifecycle s m)) (.refl m) (stop_called h)

theorem converse_called : ∀ (x : Exchange ν) {m : Machine ν}, m.Calling → m.Called (converse x m).2
  | .answer _ _, m, _ => .refl m
  | .request r next, m, h => by
    have hg := grant_called r h
    rw [converse]
    obtain ⟨answer, hr⟩ : ∃ a, m.grant r = a := ⟨_, rfl⟩
    rw [hr] at hg ⊢
    exact hg.trans (converse_called (next answer.1) (hg.calling h))

/-- All that sending can do to the lifecycle of a machine is to stop it. -/
theorem called_of_reaches {n : Nat} (h : (host site).Reaches m n m') (hm : m.Calling) : m.Called m' := by
  induction h with
  | refl => exact .refl m
  | print _ text ih => exact ih
  | @send n v _ target method payload ih =>
    exact ih.trans (converse_called _ (m := v.tell (.called target method payload)) (ih.calling hm))
  | @later n v _ reader ih =>
    have hlater : ((host site).later reader v).lifecycle = v.lifecycle := by
      obtain ⟨texts, outside, -, h⟩ := later_printed site reader v
      rw [h]
      rfl
    exact ih.trans (.inl hlater)

/-- So it is with the pending call. -/
theorem invoke_called (site : Site ν) (g : Guest) (h : m.Calling) : m.Called (g.invoke (host site) m).2.2 := by
  obtain ⟨n, -, hreaches⟩ := g.invoke_reaches (host site) m
  exact called_of_reaches hreaches h

end Machine

end VirtualComputer
