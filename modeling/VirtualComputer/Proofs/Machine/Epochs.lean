import VirtualComputer.Proofs.Machine.Operations

/-!
# Tasks of runs that have been torn down

A guest is released only with its epoch (`Operation.dated`), so a task that still waits when its run has been torn down
is of an older epoch than the machine, whatever has been started or loaded since (`Ends.older`).  Nothing happens when a
worker takes it, and the task of the run that there is now is still to be taken and resumes the guest once
(`stale_tasks_void`).
-/

namespace VirtualComputer

open Machine

namespace Machine

variable {ν : Type} {site : Site ν} {m m' : Machine ν} {g : Guest}

/-! ## Epochs -/

/-- Either a later epoch has begun or the guest, if there is one, has been kept. -/
def Dated (m m' : Machine ν) : Prop :=
  m.epoch < m'.epoch ∨ m'.epoch = m.epoch ∧ (m.guest.isSome → m'.guest.isSome)

theorem Dated.refl (m : Machine ν) : m.Dated m :=
  .inr ⟨rfl, id⟩

theorem Dated.le (h : m.Dated m') : m.epoch ≤ m'.epoch := by
  rcases h with h | ⟨h, -⟩ <;> omega

theorem Dated.trans {m'' : Machine ν} (h : m.Dated m') (h' : m'.Dated m'') : m.Dated m'' := by
  rcases h with h | ⟨he, hg⟩
  · exact .inl (Nat.lt_of_lt_of_le h h'.le)
  · rcases h' with h' | ⟨he', hg'⟩
    · exact .inl (he ▸ h')
    · exact .inr ⟨he'.trans he, fun h => hg' (hg h)⟩

theorem Dated.of_lifecycle (h : m'.lifecycle = m.lifecycle) : m.Dated m' := by
  have hg : m'.guest = m.guest := congrArg Lifecycle.guest h
  exact .inr ⟨congrArg Lifecycle.epoch h, fun hs => by rw [hg]; exact hs⟩

theorem close_dated (m : Machine ν) : m.Dated m.close :=
  .inl (by rw [close_epoch]; exact Nat.lt_succ_self _)

theorem schedule_dated (next : State) (m : Machine ν) : m.Dated (m.schedule next) := by
  unfold schedule
  split
  · exact .refl m
  · exact .inr ⟨rfl, id⟩

theorem TornDown.dated (h : m.TornDown m') : m.Dated m' :=
  .inl (by rw [h.1]; exact Nat.lt_succ_self _)

theorem Rested.dated {w : Wish} (h : Rested w m m') : m.Dated m' := by
  obtain ⟨he, next, -, hc⟩ := h
  have hg : m'.guest = m.guest := congrArg Situation.guest hc
  exact .inr ⟨he, fun hs => by rw [hg]; exact hs⟩

theorem stop_dated (m : Machine ν) : m.Dated m.stop.2 := by
  rcases m.stop_leaves with h | h | h <;> rw [h]
  · exact .refl m
  · exact .inr ⟨rfl, id⟩
  · exact close_dated m

theorem start_dated (site : Site ν) (m : Machine ν) : m.Dated (start site m).2 := by
  rcases start_leaves site m with h | ⟨-, texts, ledger, outside, -, ⟨g, h⟩ | ⟨f, h⟩⟩ <;> rw [h]
  · exact .refl m
  · exact .inr ⟨rfl, fun _ => rfl⟩
  · exact .inr ⟨rfl, id⟩

theorem synchronize_dated (h : m.Regular) (hs : m.state = .synchronizedCall) : m.Dated (synchronize site m) := by
  obtain ⟨m', g, hfree, hepoch, hsync⟩ := h.synchronize_cases site hs
  have hbefore : m.Dated m' := .inr ⟨hepoch, fun _ => by rw [hfree.guest]; rfl⟩
  refine hbefore.trans ?_
  rcases hsync with hsync | hsync | ⟨f, hsync⟩ <;> rw [hsync]
  · exact close_dated m'
  · exact schedule_dated _ m'
  · exact (failCall_torn hfree f).dated

theorem update_dated (h : m.Regular) : m.Dated (update site m) := by
  obtain ⟨hregular, -, hcall⟩ := (advance_advanced (noted site m)).regular h
  have hshown := @shown_lifecycle ν site m.ended (advance (noted site m)).2
  have hadvance : m.Dated (advance (noted site m)).2 := by
    obtain ⟨hepoch, hguest⟩ := (advance_advanced (noted site m)).same
    exact .inr ⟨hepoch, fun hg => by rw [hguest]; exact hg⟩
  rw [update_noted]
  refine (hadvance.trans (.of_lifecycle hshown)).trans ?_
  cases ha : (advance (noted site m)).1 with
  | nothing => exact .refl _
  | reboot => exact (close_dated _).trans (start_dated site _)
  | call => exact synchronize_dated (hregular.of_eq hshown) ((congrArg Lifecycle.state hshown).trans (hcall ha))

theorem Taken.dated (h : m.Taken m') : m.Dated m' := by
  cases h with
  | void => exact .refl m
  | closed => exact close_dated m
  | parked | entered => exact .inr ⟨rfl, id⟩
  | refused n queue => exact close_dated (tell (.noticed n) { m with queue })

theorem finishTask_dated (site : Site ν) (h : m.Regular) : m.Dated (finishTask site m) := by
  cases hi : m.inside with
  | none =>
    rw [finishTask_idle site hi]
    exact .refl m
  | some d =>
    obtain ⟨-, hw, g, hg⟩ := h.resuming hi
    obtain ⟨m', hf, hfree, hepoch, -⟩ := finishTask_busy site hi hg hw
    have hresumed : m.Dated m' := .inr ⟨hepoch, fun _ => by rw [hfree.guest]; rfl⟩
    rw [hf]
    refine hresumed.trans ?_
    rcases (react_reacted site _ m').rested_or_torn hfree with ⟨w, -, -, hrested⟩ | htorn
    · exact hrested.dated
    · exact htorn.dated

/-- A load begins a later epoch, whether or not there was a run. -/
theorem load_epoch (site : Site ν) (r : MachineRecord) (m : Machine ν) : m.epoch < (load site r m).epoch := by
  have hclose : m.epoch < m.close.epoch := by
    rw [close_epoch]
    exact Nat.lt_succ_self _
  refine load_of (P := fun m' => m.epoch < m'.epoch) site r m (fun f told outside => ?_) hclose hclose
    fun s g told outside _ => hclose
  rw [close_epoch]
  exact Nat.lt_succ_of_lt hclose

end Machine

/-- A guest is released only with its epoch. -/
theorem Operation.dated {ν : Type} {m : Machine ν} (op : Operation ν) (site : Site ν) (h : m.Regular)
    (ha : op.Allowed m) : m.Dated (op.perform site m) := by
  cases op with
  | start => exact start_dated site m
  | stop => exact stop_dated m
  | signal s => exact .of_lifecycle (signal_lifecycle s m)
  | update => exact update_dated h
  | deferred =>
    obtain ⟨g, hfree⟩ := h.free_call ha
    exact .of_lifecycle (deferred_lifecycle hfree.inside ha)
  | receive msg =>
    exact handle_of (P := m.Dated) msg (.refl m) (fun s => .of_lifecycle (signal_lifecycle s m)) (start_dated site m)
      (stop_dated m)
  | save => exact .of_lifecycle (save_told m).lifecycle
  | load r => exact .inl (load_epoch site r m)
  | beginTask epoch => exact (beginTask_taken site epoch { m with waiting := m.waiting.erase epoch }).dated
  | finishTask => exact finishTask_dated site h
  | elsewhere outside => exact .inr ⟨rfl, id⟩

namespace Machine

variable {ν : Type} {site : Site ν} {m : Machine ν} {ops : List (Operation ν)} {epoch : Nat}

theorem Admits.dated (ha : m.Admits site ops) (h : m.Regular) : m.Dated (m.after site ops) :=
  ha.invariant [] (P := fun m' _ => m.Dated m') h
    (fun op _ _ _ h hop hm => hm.trans (op.dated site h hop)) (.refl m)

/-- Whether a course tears a run down: one of its operations leaves no guest, or loads a record. -/
def Ends (site : Site ν) (ops : List (Operation ν)) (m : Machine ν) : Prop :=
  ∃ before op rest, ops = before ++ op :: rest ∧
    (op.Loads ∨ (op.perform site (m.after site before)).guest = none)

/-- Once its run has been torn down, a task is of an older epoch than the machine. -/
theorem Ends.older (hend : m.Ends site ops) (ha : m.Admits site ops) (h : m.Regular) (he : epoch ∈ m.waiting) :
    epoch < (m.after site ops).epoch := by
  obtain ⟨before, op, rest, rfl, hop⟩ := hend
  rw [after_append]
  obtain ⟨hbefore, hallowed, hrest⟩ := (admits_append before (op :: rest) m).1 ha
  have hregular := hbefore.regular h
  have hdated := hbefore.dated h
  have hnext := op.dated site hregular hallowed
  have hlater := Admits.dated hrest (op.regular hregular hallowed)
  refine Nat.lt_of_lt_of_le ?_ hlater.le
  rcases hop with hloads | hguest
  · cases op with
    | load r =>
      have hload := load_epoch site r (m.after site before)
      exact Nat.lt_of_le_of_lt ((h.waiting_le epoch he).trans hdated.le) hload
    | _ => cases hloads
  · rcases hdated.trans hnext with hlt | ⟨hepoch, hkept⟩
    · exact Nat.lt_of_le_of_lt (h.waiting_le epoch he) hlt
    · -- The run had ended before, so that the task was already void.
      have hnone : m.guest = none := by
        cases hg : m.guest with
        | none => rfl
        | some g =>
          rw [hg, hguest] at hkept
          cases hkept rfl
      rw [hepoch]
      exact (h.idle hnone).2.2 epoch he

/-! ## Resumes -/

/-- All that an update notes while a resume is outstanding is the time. -/
theorem update_resuming (site : Site ν) (hs : m.state = .running ∨ m.state = .stopping) : update site m = { m with
    ledger := { m.ledger with worldTime := site.worldTime m.outside }
    lastUpdate := site.now m.outside
    updated := true } := by
  rcases m with ⟨state, _⟩
  rcases hs with rfl | rfl <;>
    simp [update_noted, noted, ended, advance, shown, takeMessage, announceEnd, showMessage, perform]

theorem stop_resuming (hs : m.state = .running ∨ m.state = .stopping) :
    m.stop = (true, { m with state := .stopping }) := by
  rcases m with ⟨state, _⟩
  rcases hs with rfl | rfl <;> rfl

end Machine

/-- While a worker is inside a resume no other task is taken and the guest is left alone. -/
theorem Operation.resuming {ν : Type} {m : Machine ν} {d : Delivery} (op : Operation ν) (site : Site ν)
    (h : m.Regular) (ha : op.Allowed m) (hi : m.inside = some d) (hop : op ≠ .finishTask) :
    (op.perform site m).inside = some d ∧ (op.perform site m).guest = m.guest ∧ ∀ epoch, op ≠ .beginTask epoch := by
  obtain ⟨hs, -, -⟩ := h.resuming hi
  have hrunning : m.state ≠ .stopped := by rcases hs with hs | hs <;> rw [hs] <;> nofun
  have hkept {m' : Machine ν} (hi' : m'.inside = m.inside) (hg' : m'.guest = m.guest) :
      m'.inside = some d ∧ m'.guest = m.guest := ⟨hi'.trans hi, hg'⟩
  have hstart : (m.start site).2.inside = some d ∧ (m.start site).2.guest = m.guest := by
    rw [start_refused site hrunning]
    exact hkept rfl rfl
  have hstop : m.stop.2.inside = some d ∧ m.stop.2.guest = m.guest := by
    rw [stop_resuming hs]
    exact hkept rfl rfl
  have hsignal (s : Signal) : (m.signal s).2.inside = some d ∧ (m.signal s).2.guest = m.guest :=
    hkept (congrArg Lifecycle.inside (signal_lifecycle s m)) (congrArg Lifecycle.guest (signal_lifecycle s m))
  refine and_assoc.1 ⟨?_, ?_⟩
  · cases op with
    | start => exact hstart
    | stop => exact hstop
    | signal s => exact hsignal s
    | update =>
      rw [perform, update_resuming site hs]
      exact hkept rfl rfl
    | deferred => rcases hs with hs | hs <;> cases hs.symm.trans ha
    | receive msg =>
      exact handle_of (P := fun m' => m'.inside = some d ∧ m'.guest = m.guest) msg (hkept rfl rfl) hsignal hstart hstop
    | save | load r => cases hi.symm.trans ha
    | beginTask epoch => cases hi.symm.trans ha.1
    | finishTask => cases hop rfl
    | elsewhere outside => exact hkept rfl rfl
  · rintro epoch rfl
    cases hi.symm.trans ha.1

namespace Machine

variable {ν : Type} {site : Site ν} {m : Machine ν} {ops : List (Operation ν)} {epoch : Nat} {d : Delivery} {g : Guest}

/-- A worker is inside the one resume of a guest that its task is for. -/
structure Resumes (site : Site ν) (d : Delivery) (g : Guest) (m : Machine ν) : Prop where
  inside : m.inside = some d
  guest : m.guest = some g
  /-- No other task of the epoch waits. -/
  alone : m.epoch ∉ m.waiting
  /-- Whatever is done meanwhile, no other task is taken, and the guest is left alone. -/
  meanwhile : ∀ ops, m.Admits site ops → .finishTask ∉ ops →
    (m.after site ops).inside = some d ∧ (m.after site ops).guest = some g ∧ ∀ epoch, .beginTask epoch ∉ ops
  /-- The guest is resumed, and the machine goes on from what that comes to. -/
  finish : ∀ ops, m.Admits site ops → .finishTask ∉ ops →
    let r := g.resume (host site) site.steps d (m.after site ops)
    ∃ m' : Machine ν, finishTask site (m.after site ops) = react site r.1 m' ∧ m'.guest = some r.2.1 ∧
      (finishTask site (m.after site ops)).inside = none

theorem resuming_after (h : m.Regular) (hi : m.inside = some d) (hg : m.guest = some g) (ha : m.Admits site ops)
    (hops : .finishTask ∉ ops) :
    (m.after site ops).inside = some d ∧ (m.after site ops).guest = some g ∧ ∀ epoch, .beginTask epoch ∉ ops := by
  induction ops generalizing m with
  | nil => exact ⟨hi, hg, fun epoch => List.not_mem_nil⟩
  | cons op ops ih =>
    obtain ⟨hop, hrest⟩ := ha
    rw [List.mem_cons, not_or] at hops
    obtain ⟨hi', hg', hnot⟩ := op.resuming site h hop hi fun h => hops.1 h.symm
    obtain ⟨hi'', hg'', hnone⟩ := ih (op.regular h hop) hi' (hg'.trans hg) hrest hops.2
    refine ⟨hi'', hg'', fun epoch hmem => ?_⟩
    rcases List.mem_cons.1 hmem with heq | hmem
    · exact hnot epoch heq.symm
    · exact hnone epoch hmem

theorem Regular.resumes (site : Site ν) (h : m.Regular) (hi : m.inside = some d) (hg : m.guest = some g) :
    m.Resumes site d g := by
  obtain ⟨-, hw, -⟩ := h.resuming hi
  refine ⟨hi, hg, fun he => Nat.lt_irrefl _ (hw _ he), fun ops ha hops => resuming_after h hi hg ha hops,
    fun ops ha hops => ?_⟩
  obtain ⟨hi', hg', -⟩ := resuming_after h hi hg ha hops
  obtain ⟨-, hw', -⟩ := (ha.regular h).resuming hi'
  obtain ⟨m', hf, hfree, -, -⟩ := finishTask_busy site hi' hg' hw'
  refine ⟨m', hf, hfree.guest, ?_⟩
  rw [hf]
  rcases (react_reacted site _ m').rested_or_torn hfree with
    ⟨w, -, -, -, next, -, hc⟩ | ⟨-, next, -, hc⟩
  · exact (congrArg Situation.inside hc).trans hfree.inside
  · exact congrArg Situation.inside hc

/-- What becomes of the task of the current epoch when a worker takes it: unless the machine is to be stopped or the
world is stalled, it resumes the guest. -/
structure Performs (site : Site ν) (m : Machine ν) : Prop where
  stopping : m.state = .stopping →
    beginTask site m.epoch { m with waiting := m.waiting.erase m.epoch } =
      close { m with waiting := m.waiting.erase m.epoch }
  stalled : m.state ≠ .stopping → isStalled site m →
    beginTask site m.epoch { m with waiting := m.waiting.erase m.epoch } =
      park { m with waiting := m.waiting.erase m.epoch }
  resumes : m.state ≠ .stopping → ¬isStalled site m → ∃ d g, m.guest = some g ∧
    Resumes site d g (beginTask site m.epoch { m with waiting := m.waiting.erase m.epoch })

/-- A task of the current epoch does what it is for. -/
theorem Regular.performs (site : Site ν) (h : m.Regular) (hi : m.inside = none) (he : m.epoch ∈ m.waiting) :
    m.Performs site := by
  obtain ⟨hs, hguest⟩ := h.due hi he
  obtain ⟨g, hg⟩ := Option.isSome_iff_exists.1 hguest
  refine ⟨fun hs => beginTask_stopping rfl hs, fun hs hst => beginTask_stalled rfl hs hst, fun hns hst => ?_⟩
  have hbegun : ((Operation.beginTask m.epoch).perform site m).Regular := beginTask_regular h hi he
  simp only [Operation.perform] at hbegun
  rcases hs with hs | hs | hs
  · have hb := beginTask_yielded (m := { m with waiting := m.waiting.erase m.epoch }) rfl hs hst hguest
    rw [hb] at hbegun ⊢
    exact ⟨_, g, hg, hbegun.resumes site rfl hg⟩
  · have hb := beginTask_return (m := { m with waiting := m.waiting.erase m.epoch }) rfl hs hst hguest
    rw [hb] at hbegun ⊢
    exact ⟨_, g, hg, hbegun.resumes site rfl hg⟩
  · exact absurd hs hns

/-! ## Stale tasks -/

/-- Epochs that differ by less than the numbers of a word differ as words. -/
theorem wrap_ne {a b : Nat} (hlt : a < b) (hle : (b - a : Int) ≤ Word.unsigned64.greatest) :
    Word.unsigned64.wrap b ≠ Word.unsigned64.wrap a := by
  simp only [Word.wrap, Word.least, Word.greatest] at hle ⊢
  omega

/-- What becomes of a task of an older epoch when a worker takes it. -/
structure Voids (site : Site ν) (epoch : Nat) (m : Machine ν) : Prop where
  older : epoch < m.epoch
  /-- Counted by words the epochs differ as well, unless as many as there are words have begun since. -/
  words : (m.epoch - epoch : Int) ≤ Word.unsigned64.greatest →
    Word.unsigned64.wrap m.epoch ≠ Word.unsigned64.wrap epoch
  /-- Nothing changes but that the task no longer waits. -/
  unchanged : (Operation.beginTask epoch).perform site m = { m with waiting := m.waiting.erase epoch }
  /-- Nothing happens afterwards either. -/
  finished : finishTask site ((Operation.beginTask epoch).perform site m) = { m with waiting := m.waiting.erase epoch }
  silent : (Operation.beginTask epoch).log site m = []
  /-- The task of the run that there is now is still the only one to be taken, and does what it is for. -/
  own : m.task → let m' := (Operation.beginTask epoch).perform site m
    m'.task ∧ m'.waiting.count m'.epoch = 1 ∧ m'.Performs site

theorem Regular.voids (site : Site ν) (h : m.Regular) (hi : m.inside = none) (he : epoch ∈ m.waiting)
    (hlt : epoch < m.epoch) : m.Voids site epoch := by
  have hne : m.epoch ≠ epoch := Nat.ne_of_gt hlt
  have hb : (Operation.beginTask epoch).perform site m = { m with waiting := m.waiting.erase epoch } :=
    beginTask_void hne
  have hregular : ((Operation.beginTask epoch).perform site m).Regular := beginTask_regular h hi he
  refine ⟨hlt, wrap_ne hlt, hb, ?_, beginTaskLog_void hi hne, fun ht => ?_⟩
  · rw [hb]
    exact finishTask_idle site hi
  · rw [hb] at hregular ⊢
    obtain ⟨-, hdue, -⟩ := hregular.awaited ht hi
    exact ⟨ht, hdue.1, hregular.performs site hi hdue.mem⟩

end Machine

variable {ν : Type} {site : Site ν} {catalog : Catalog} {outside : ν} {ops more : List (Operation ν)} {epoch : Nat}

/-- A task that a worker takes only after its run has been torn down changes nothing, however many runs have been
started or loaded since. -/
theorem stale_tasks_void (ha : Admits site (ops ++ more) (fresh site catalog outside))
    (he : epoch ∈ (after site ops (fresh site catalog outside)).waiting)
    (hend : Ends site more (after site ops (fresh site catalog outside)))
    (hb : (Operation.beginTask epoch).Allowed (after site (ops ++ more) (fresh site catalog outside))) :
    Voids site epoch (after site (ops ++ more) (fresh site catalog outside)) := by
  have hregular := ha.regular (fresh_regular site catalog outside)
  obtain ⟨hops, hmore⟩ := (admits_append ops more _).1 ha
  have holder := hend.older hmore (hops.regular (fresh_regular site catalog outside)) he
  rw [← after_append] at holder
  exact hregular.voids site hb.1 hb.2 holder

/-- A machine that has never run, with a small kernel. -/
def untouched : Machine Console :=
  Machine.fresh consoleSite ⟨none, Catalog.defaultBoot, "yield 1\nyield 2", []⟩ ⟨0, 0⟩

/-- A run that waits for a worker. -/
def keyed : List (Operation Console) :=
  [.start, .signal ⟨"key", []⟩, .update]

/-- A record without a run replaces what there is, and another run is started. -/
def replacing : List (Operation Console) :=
  [.load (.ofState State.stopped.code), .start, .signal ⟨"go", []⟩, .update]

/-- The task of the first run is void while that of the second one waits beside it. -/
theorem replaced_void : ∃ m : Machine Console, (m.state = .yielded ∧ m.task ∧ m.epoch = 1 ∧ m.waiting = [0, 1]) ∧
    m.Voids consoleSite 0 := by
  obtain ⟨hadmits, hwaits, hallowed, hstate⟩ : Admits consoleSite (keyed ++ replacing) untouched ∧
      0 ∈ (after consoleSite keyed untouched).waiting ∧
      (Operation.beginTask 0).Allowed (after consoleSite (keyed ++ replacing) untouched) ∧
      (after consoleSite (keyed ++ replacing) untouched).state = .yielded ∧
      (after consoleSite (keyed ++ replacing) untouched).task ∧
      (after consoleSite (keyed ++ replacing) untouched).epoch = 1 ∧
      (after consoleSite (keyed ++ replacing) untouched).waiting = [0, 1] := by decide +kernel
  have hends : Ends consoleSite replacing (after consoleSite keyed untouched) := ⟨[], _, _, rfl, .inl trivial⟩
  exact ⟨_, hstate, stale_tasks_void hadmits hwaits hends hallowed⟩

end VirtualComputer
