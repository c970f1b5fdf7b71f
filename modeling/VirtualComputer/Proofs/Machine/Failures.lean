import VirtualComputer.Proofs.Guest.Mirroring
import VirtualComputer.Proofs.Machine.Announcements
import VirtualComputer.Proofs.Machine.Beginnings
import VirtualComputer.Proofs.Machine.Epochs

/-!
# Failed starts and rejected records

A machine without a guest keeps nothing of the runs that it has had (`Operation.tidy`), so what starting it comes to
depends on the catalog and the world only (`start_fresh`).  A start that fails tells of it and is forgotten
(`start_failed`), and a record that is rejected ends the run that there was and leaves none (`load_rejected`), wherever
they have failed (`failures_undone`).
-/

namespace VirtualComputer

open Machine

namespace Machine

variable {ν : Type} {site : Site ν} {m m' : Machine ν}

/-! ## Machines without a run -/

/-- No sleep ends, and nothing is accounted for. -/
def Blank (m : Machine ν) : Prop :=
  m.wakeAt = none ∧ m.ledger.kernelMemory = 0 ∧ m.ledger.cpuTime = 0 ∧ m.ledger.started = 0

/-- Without a guest nothing is left of a run. -/
def Tidy (m : Machine ν) : Prop :=
  m.guest = none → m.Blank

theorem Tidy.of_some (h : m.guest.isSome) : m.Tidy := by
  intro hg
  rw [hg] at h
  cases h

theorem close_tidy (h : m.Tidy) : m.close.Tidy := by
  intro _
  unfold close
  dsimp only
  split
  · next hs =>
    rw [Bool.and_eq_true] at hs
    exact h (Option.isNone_iff_eq_none.1 hs.2)
  · exact ⟨rfl, rfl, rfl, rfl⟩

theorem crash_tidy (message : String) (h : m.Tidy) : (m.crash message).Tidy :=
  close_tidy (m := { m with message := some message }) h

theorem schedule_tidy (next : State) (h : m.Tidy) : (m.schedule next).Tidy := by
  unfold schedule
  split
  · exact h
  · exact fun hg => ⟨rfl, (h hg).2⟩

theorem signal_tidy (s : Signal) (h : m.Tidy) : (m.signal s).2.Tidy := by
  unfold signal
  split <;> exact h

theorem stop_tidy (h : m.Tidy) : m.stop.2.Tidy := by
  rcases m.stop_leaves with hs | hs | hs <;> rw [hs]
  · exact h
  · exact h
  · exact close_tidy h

theorem start_tidy (site : Site ν) (h : m.Tidy) : (m.start site).2.Tidy := by
  rcases start_leaves site m with hs | ⟨-, texts, ledger, outside, -, ⟨g, hs⟩ | ⟨f, hs⟩⟩ <;> rw [hs]
  · exact h
  · exact .of_some rfl
  · exact fun hg => ⟨(h hg).1, rfl, rfl, rfl⟩

theorem Taken.tidy (ht : m.Taken m') (h : m.Tidy) : m'.Tidy := by
  cases ht with
  | void | parked | entered => exact h
  | closed => exact close_tidy h
  | refused n queue => exact close_tidy (m := tell (.noticed n) { m with queue }) h

theorem Granted.tidy {w : Wish} (h : m.Granted w m') (hg : m.guest.isSome) : m'.Tidy := by
  cases h with
  | asleep | idle | calls => exact .of_some hg
  | resumed => exact schedule_tidy _ (.of_some hg)
  | closed | reboots => exact close_tidy (.of_some hg)

theorem Reacted.tidy {r : Except Fault Progress} (h : m.Reacted r m') (hg : m.guest.isSome) : m'.Tidy := by
  cases h with
  | stopped => exact close_tidy (.of_some hg)
  | granted _ hgranted => exact hgranted.tidy hg
  | ended _ notices message =>
    exact close_tidy (m := { m.tellAll (notices.map .noticed) with message }) (.of_some hg)

theorem finishTask_tidy (site : Site ν) (hm : m.Regular) (h : m.Tidy) : (finishTask site m).Tidy := by
  cases hi : m.inside with
  | none =>
    rw [finishTask_idle site hi]
    exact h
  | some d =>
    obtain ⟨-, hw, g, hg⟩ := hm.resuming hi
    obtain ⟨m', hf, hfree, -, -⟩ := finishTask_busy site hi hg hw
    rw [hf]
    refine (react_reacted site _ m').tidy ?_
    rw [hfree.guest]
    rfl

theorem synchronize_tidy (site : Site ν) (hm : m.Regular) (hs : m.state = .synchronizedCall) :
    (synchronize site m).Tidy := by
  obtain ⟨m', g, hfree, -, hsync⟩ := hm.synchronize_cases site hs
  have hsome : m'.guest.isSome := by
    rw [hfree.guest]
    rfl
  rcases hsync with hsync | hsync | ⟨f, hsync⟩ <;> rw [hsync]
  · exact close_tidy (.of_some hsome)
  · exact schedule_tidy _ (.of_some hsome)
  · unfold failCall
    split <;> exact crash_tidy (m := m'.tell _) _ (.of_some hsome)

theorem Advanced.tidy {a : Action} (hm : m.Advanced a m') (h : m.Tidy) : m'.Tidy := by
  cases hm with
  | kept | reboots | calls => exact h
  | resumed | returned => exact schedule_tidy _ h

theorem update_tidy (site : Site ν) (hm : m.Regular) (h : m.Tidy) : (update site m).Tidy := by
  obtain ⟨hregular, -, hcall⟩ := (advance_advanced (noted site m)).regular hm
  have hadvance : (advance (noted site m)).2.Tidy := (advance_advanced (noted site m)).tidy h
  have hlifecycle := @shown_lifecycle ν site m.ended (advance (noted site m)).2
  have hshown : (shown site m.ended (advance (noted site m)).2).Tidy := by
    obtain ⟨message, told, hshown⟩ := shown_told site m.ended (advance (noted site m)).2
    rw [hshown]
    exact hadvance
  rw [update_noted]
  cases ha : (advance (noted site m)).1 with
  | nothing => exact hshown
  | reboot => exact start_tidy site (close_tidy hshown)
  | call =>
    exact synchronize_tidy site (hregular.of_eq hlifecycle) ((congrArg Lifecycle.state hlifecycle).trans (hcall ha))

theorem load_tidy (site : Site ν) (r : MachineRecord) (h : m.Tidy) : (load site r m).Tidy := by
  have hclose := close_tidy h
  refine load_of site r m (fun f told outside => ?_) hclose hclose fun s g told outside _ => .of_some rfl
  exact close_tidy (m := tell (.noticed (.discarded f)) { m.close.readdressed r with told, outside }) hclose

end Machine

/-- Every operation that releases the guest clears what the run has left. -/
theorem Operation.tidy {ν : Type} {m : Machine ν} (op : Operation ν) (site : Site ν) (hm : m.Regular)
    (ha : op.Allowed m) (h : m.Tidy) : (op.perform site m).Tidy := by
  cases op with
  | start => exact start_tidy site h
  | stop => exact stop_tidy h
  | signal s => exact signal_tidy s h
  | update => exact update_tidy site hm h
  | deferred =>
    obtain ⟨g, hfree⟩ := hm.free_call ha
    have hguest : (m.deferred site).guest = m.guest :=
      congrArg Lifecycle.guest (deferred_lifecycle hfree.inside ha)
    refine .of_some ?_
    rw [perform, hguest, hfree.guest]
    rfl
  | receive msg => exact handle_of (P := Tidy) msg h (fun s => signal_tidy s h) (start_tidy site h) (stop_tidy h)
  | save =>
    obtain ⟨told, outside, -, hsave⟩ := save_told m
    rw [perform, hsave]
    exact h
  | load r => exact load_tidy site r h
  | beginTask epoch =>
    exact (beginTask_taken site epoch { m with waiting := m.waiting.erase epoch }).tidy h
  | finishTask => exact finishTask_tidy site hm h
  | elsewhere outside => exact h

namespace Machine

variable {ν : Type} {site : Site ν} {m m' : Machine ν} {ops : List (Operation ν)}

theorem fresh_tidy (site : Site ν) (catalog : Catalog) (outside : ν) : (fresh site catalog outside).Tidy :=
  fun _ => ⟨rfl, rfl, rfl, rfl⟩

theorem Admits.tidy (ha : m.Admits site ops) (hm : m.Regular) (h : m.Tidy) : (m.after site ops).Tidy :=
  ha.invariant [] (P := fun m _ => m.Tidy) hm (fun op _ _ _ hm hop h => op.tidy site hm hop h) h

/-! ## Starts of new machines -/

/-- A machine in place of another one, whose accounts, catalog and world it takes over, with the worker that is inside a
resume, and what that one has told. -/
def standIn (origin m : Machine ν) : Machine ν :=
  { origin with
    inside := m.inside
    ledger := m.ledger
    catalog := m.catalog
    outside := m.outside
    told := origin.told ++ m.told }

theorem host_mirrors (site : Site ν) (origin : Machine ν) : (host site).Mirrors (host site) (standIn origin) where
  clock _ := rfl
  worldTime _ := rfl
  uptime _ := rfl
  totalMemory _ := rfl
  address _ := rfl
  bootAddress _ := rfl
  peerName _ _ := rfl
  print text m := by
    have htold := List.append_assoc origin.told m.told [.printed text]
    exact congrArg (fun told => { standIn origin m with told }) htold
  later n m := by
    have hinside : (standIn origin m).inside = m.inside := rfl
    dsimp only [host]
    rw [hinside]
    split <;> rfl

theorem bootGuest_standIn (site : Site ν) (origin m : Machine ν) :
    bootGuest site (standIn origin m) = ((bootGuest site m).1, standIn origin (bootGuest site m).2) := by
  have hcatalog : (standIn origin m).catalog = m.catalog := rfl
  unfold bootGuest
  rw [hcatalog]
  dsimp only
  split
  · rfl
  · next program _ =>
    have hboot := Guest.boot_mirrors (host_mirrors site origin)
      (Guest.empty.install site.settings.timeout m.catalog.drivers) site.steps program m
    rw [hboot]
    rcases (Guest.empty.install site.settings.timeout m.catalog.drivers).boot (host site) site.steps program m with
      ⟨_ | _, g, m'⟩ <;> rfl

/-- What the guest of a machine is like does not depend on the runs that the machine has had. -/
theorem bootKernel_standIn (site : Site ν) (origin m : Machine ν) :
    bootKernel site (standIn origin m) = ((bootKernel site m).1, standIn origin (bootKernel site m).2) := by
  have hboot := bootGuest_standIn site origin m
  unfold bootKernel
  rw [hboot]
  rcases bootGuest site m with ⟨f | g, m'⟩
  · rfl
  · have hcatalog : (standIn origin m').catalog = m'.catalog := rfl
    dsimp only
    rw [hcatalog]
    split
    · rfl
    · next program _ =>
      have hresume := Guest.resume_mirrors (host_mirrors site origin) (g.load program) site.steps .nothing m'
      rw [hresume]
      rcases (g.load program).resume (host site) site.steps .nothing m' with ⟨r, g', m''⟩
      dsimp only
      split <;> rfl

/-- A start of a machine without a run comes to the same as one of a new machine. -/
theorem start_fresh (site : Site ν) (hs : m.state = .stopped) (hg : m.guest = none) (hi : m.inside = none)
    (hb : m.Blank) :
    (m.start site).1 = ((fresh site m.catalog m.outside).start site).1 ∧
      (m.start site).2.guest = ((fresh site m.catalog m.outside).start site).2.guest ∧
      (m.start site).2.ledger = ((fresh site m.catalog m.outside).start site).2.ledger := by
  obtain ⟨now, hnow⟩ : ∃ now, site.worldTime m.outside = now := ⟨_, rfl⟩
  obtain ⟨n, hn⟩ : ∃ n : Machine ν, n = { fresh site m.catalog m.outside with ledger := ⟨0, 0, now, now⟩ } := ⟨_, rfl⟩
  have hledger : Ledger.mk m.ledger.kernelMemory m.ledger.cpuTime now now = ⟨0, 0, now, now⟩ := by rw [hb.2.1, hb.2.2.1]
  have hstandIn : standIn m n = { m with ledger := ⟨0, 0, now, now⟩ } := by
    have htold := congrArg (fun told => { m with ledger := ⟨0, 0, now, now⟩, told }) (List.append_nil m.told)
    rw [standIn, hn]
    simp only [fresh]
    rw [← hi]
    exact htold
  have hmachine : standIn m n = { m with ledger := { m.ledger with worldTime := now, started := now } } :=
    hstandIn.trans (congrArg (fun ledger => { m with ledger }) hledger.symm)
  obtain ⟨hbegun, hfailed⟩ := start_booted hs hnow hmachine
  obtain ⟨hbegun', hfailed'⟩ := @start_booted ν site (fresh site m.catalog m.outside) rfl now hnow n hn
  obtain ⟨told, ledger, outside, -, hboot⟩ := bootKernel_told site n
  have hguest : (bootKernel site n).2.guest = none := by
    rw [hboot, hn]
    rfl
  have hstands := bootKernel_standIn site m n
  rcases hk : bootKernel site n with ⟨f | g, m'⟩ <;> rw [hk] at hguest hstands
  · rw [hfailed _ _ hstands, hfailed' _ _ hk]
    exact ⟨rfl, hg.trans hguest.symm, rfl⟩
  · rw [hbegun _ _ hstands, hbegun' _ _ hk]
    exact ⟨rfl, rfl, rfl⟩

/-! ## Failed starts -/

theorem bootKernel_failed (site : Site ν) {f : Failure} (h : (bootKernel site m).1 = .error f) :
    m.Printed (bootKernel site m).2 := by
  have hboot := bootGuest_printed site m
  unfold bootKernel at h ⊢
  rcases hb : bootGuest site m with ⟨f | g, m'⟩ <;> rw [hb] at h hboot <;> dsimp only at h ⊢
  · exact hboot
  · split at h
    · exact hboot
    · next program _ =>
      have hresume := resume_printed site (g.load program) .nothing m'
      split at h
      · exact hboot.trans hresume
      · cases h

/-- A start that fails prints what the guest has printed, tells why it has failed, and has a message to show. -/
theorem start_failed (hs : m.state = .stopped) (hf : ¬(m.start site).1) :
    ∃ (texts : List String) (f : Failure) (outside : ν), m.Elapses outside ∧
      (m.start site).2 = { m.tellAll (texts.map .printed ++ [.noticed (.startFailed f)]) with
        ledger := ⟨0, 0, 0, site.worldTime m.outside⟩
        message := f.display
        outside } := by
  obtain ⟨m₀, hm₀⟩ : ∃ m₀ : Machine ν, m₀ = { m with ledger := { m.ledger with
    worldTime := site.worldTime m.outside, started := site.worldTime m.outside } } := ⟨_, rfl⟩
  obtain ⟨hbegun, hfailed⟩ := start_booted hs rfl hm₀
  rcases hk : bootKernel site m₀ with ⟨f | g, m'⟩
  · obtain ⟨texts, outside, helapses, hprinted⟩ := bootKernel_failed site (congrArg Prod.fst hk)
    rw [hk] at hprinted
    dsimp only at hprinted
    rw [hm₀] at helapses
    refine ⟨texts, f, outside, helapses, ?_⟩
    rw [hfailed f m' hk, hprinted, hm₀]
    have htold := List.append_assoc m.told (texts.map .printed) [.noticed (.startFailed f)]
    exact congrArg (fun told => { m with
      ledger := ⟨0, 0, 0, site.worldTime m.outside⟩, message := f.display, outside, told }) htold
  · rw [hbegun g m' hk] at hf
    exact absurd rfl hf

/-! ## Rejected records -/

/-- Why a record is rejected, whatever run there is. -/
inductive Rejects (site : Site ν) (r : MachineRecord) (m : Machine ν) : Failure → Prop
  | unknown (hc : State.ofCode? r.state = none) : Rejects site r m (Corruption.unknownCode r.state).failure
  | midTransition {s : State} (hc : State.ofCode? r.state = some s) (hs : s = .running ∨ s = .stopping) :
      Rejects site r m (Corruption.midTransition s).failure
  /-- The boot program of the catalog fails. -/
  | boot {s : State} {f : Failure} (hc : State.ofCode? r.state = some s) (hs : (restoredState s).Resting)
      (hb : (bootGuest site (m.close.readdressed r)).1 = .error f) : Rejects site r m f
  /-- A part is missing, cannot be read back, or is not of the kind that the state asks for. -/
  | part {s : State} {g : Guest} {c : Corruption} (hc : State.ofCode? r.state = some s)
      (hs : (restoredState s).Resting) (hb : (bootGuest site (m.close.readdressed r)).1 = .ok g)
      (hp : restoreGuest s g r = .error c) : Rejects site r m c.failure

variable {r : MachineRecord} {f : Failure}

theorem tryLoad_unknown (hc : State.ofCode? r.state = none) :
    tryLoad site r m = (.error (Corruption.unknownCode r.state).failure, m.readdressed r) := by
  unfold tryLoad
  dsimp only
  rw [hc]
  rfl

theorem tryLoad_midTransition {s : State} (hc : State.ofCode? r.state = some s) (hs : s = .running ∨ s = .stopping) :
    tryLoad site r m = (.error (Corruption.midTransition s).failure, m.readdressed r) := by
  unfold tryLoad
  dsimp only
  rw [hc]
  rcases hs with rfl | rfl <;> rfl

theorem tryLoad_resting {s : State} (hc : State.ofCode? r.state = some s) (hs : (restoredState s).Resting) :
    tryLoad site r m = loadRun site s r (m.readdressed r) := by
  unfold tryLoad
  dsimp only
  rw [hc]
  cases s with
  | stopped | rebooting | running | stopping => rcases hs with h | h | h | h | h <;> cases h
  | suspended | yielded | sleeping | paused | synchronizedCall | synchronizedReturn | synchronizedReturnPaused => rfl

/-- A record that is rejected changes nothing but the address of the catalog, and lets the boot program print. -/
theorem Rejects.tryLoad (h : Rejects site r m f) :
    ∃ m', tryLoad site r m.close = (.error f, m') ∧ (m.close.readdressed r).Printed m' := by
  have hboot := bootGuest_printed site (m.close.readdressed r)
  cases h with
  | unknown hc => exact ⟨_, tryLoad_unknown hc, .refl _⟩
  | midTransition hc hs => exact ⟨_, tryLoad_midTransition hc hs, .refl _⟩
  | boot hc hs hb =>
    rw [tryLoad_resting hc hs]
    unfold loadRun
    rcases hg : bootGuest site (m.close.readdressed r) with ⟨f' | g, m'⟩ <;> rw [hg] at hb hboot <;> cases hb
    exact ⟨m', rfl, hboot⟩
  | part hc hs hb hp =>
    rw [tryLoad_resting hc hs]
    unfold loadRun
    rcases hg : bootGuest site (m.close.readdressed r) with ⟨f' | g, m'⟩ <;> rw [hg] at hb hboot <;> cases hb
    dsimp only
    rw [hp]
    exact ⟨m', rfl, hboot⟩

/-- There are no other reasons. -/
theorem rejects_iff : (Machine.tryLoad site r m.close).1 = .error f ↔ Rejects site r m f := by
  refine ⟨fun h => ?_, fun h => ?_⟩
  · cases hc : State.ofCode? r.state with
    | none =>
      rw [tryLoad_unknown hc] at h
      cases h
      exact .unknown hc
    | some s =>
      by_cases hs : (restoredState s).Resting
      · rw [tryLoad_resting hc hs] at h
        unfold loadRun at h
        rcases hb : bootGuest site (m.close.readdressed r) with ⟨f' | g, m'⟩ <;> rw [hb] at h <;> dsimp only at h
        · cases h
          exact .boot hc hs (congrArg Prod.fst hb)
        · cases hp : restoreGuest s g r with
          | error c =>
            rw [hp] at h
            cases h
            exact .part hc hs (congrArg Prod.fst hb) hp
          | ok g' =>
            rw [hp] at h
            cases h
      · cases s with
        | stopped | rebooting =>
          unfold Machine.tryLoad at h
          dsimp only at h
          rw [hc] at h
          cases h
        | running =>
          rw [tryLoad_midTransition hc (.inl rfl)] at h
          cases h
          exact .midTransition hc (.inl rfl)
        | stopping =>
          rw [tryLoad_midTransition hc (.inr rfl)] at h
          cases h
          exact .midTransition hc (.inr rfl)
        | suspended | yielded | sleeping | paused | synchronizedCall | synchronizedReturn
          | synchronizedReturnPaused => exact absurd (by simp [restoredState, State.Resting]) hs
  · obtain ⟨m', ht, -⟩ := h.tryLoad
    rw [ht]

/-- A load of a record that is rejected ends the run that there is, and tells why there is no other. -/
theorem load_rejected (h : Rejects site r m f) : ∃ (texts : List String) (outside : ν), m.close.Elapses outside ∧
    load site r m = { (m.close.readdressed r).tellAll (texts.map .printed ++ [.noticed (.discarded f)]) with
      epoch := m.close.epoch + 1
      outside } := by
  obtain ⟨m', ht, texts, outside, helapses, rfl⟩ := h.tryLoad
  obtain ⟨n, hn⟩ : ∃ n : Machine ν, n = tell (.noticed (.discarded f))
    { (m.close.readdressed r).tellAll (texts.map .printed) with outside } := ⟨_, rfl⟩
  have hstate : n.state = .stopped := by
    rw [hn]
    exact close_state m
  have hguest : n.guest = none := by
    rw [hn]
    exact close_guest m
  have hload : load site r m = n.close := by
    rw [load, ht, hn]
  have hclose : n.close = { n with epoch := n.epoch + 1 } := by
    rw [close, hstate, hguest]
    rfl
  refine ⟨texts, outside, helapses, ?_⟩
  rw [hload, hclose, hn]
  have htold := List.append_assoc m.close.told (texts.map .printed) [.noticed (.discarded f)]
  exact congrArg (fun told => { m.close.readdressed r with epoch := m.close.epoch + 1, outside, told }) htold

/-! ## What is left -/

/-- What a failed start and a rejected record leave of a machine, whatever it was before. -/
structure Undone (site : Site ν) (m m' : Machine ν) : Prop where
  state : m'.state = .stopped
  guest : m'.guest = none
  task : m'.task = false
  inside : m'.inside = none
  wakeAt : m'.wakeAt = none
  kernelMemory : m'.ledger.kernelMemory = 0
  cpuTime : m'.ledger.cpuTime = 0
  started : m'.ledger.started = 0
  /-- No signal has come to the queue. -/
  queue : m'.queue = m.queue ∨ m'.queue = m.queue.clear
  /-- The start of no run has been announced. -/
  announcements : m'.announcements.count .started = m.announcements.count .started
  /-- The tasks that waited before are void for ever. -/
  tasks : ∀ epoch ∈ m.waiting, ∀ more, m'.Admits site more →
    (Operation.beginTask epoch).Allowed (m'.after site more) → (m'.after site more).Voids site epoch
  /-- Whatever is done next, the machine starts like a new one whenever it is stopped. -/
  later : ∀ more, m'.Admits site more → (m'.after site more).state = .stopped →
    let n := m'.after site more
    let new := fresh site n.catalog n.outside
    (n.start site).1 = (new.start site).1 ∧ (n.start site).2.guest = (new.start site).2.guest ∧
      (n.start site).2.ledger = (new.start site).2.ledger

/-- What is forgotten whenever an operation leaves a machine stopped. -/
theorem Undone.of_operation (op : Operation ν) (hm : m.Regular) (ht : m.Tidy) (ha : op.Allowed m)
    (hs : (op.perform site m).state = .stopped)
    (hq : (op.perform site m).queue = m.queue ∨ (op.perform site m).queue = m.queue.clear)
    (hc : (op.perform site m).announcements.count .started = m.announcements.count .started) :
    Undone site m (op.perform site m) := by
  have hregular : (op.perform site m).Regular := op.regular hm ha
  have htidy := op.tidy site hm ha ht
  have hguest := hregular.guest_none (.inl hs)
  obtain ⟨htask, hinside, -⟩ := hregular.idle hguest
  obtain ⟨hwakeAt, hkernelMemory, hcpuTime, hstarted⟩ := htidy hguest
  refine ⟨hs, hguest, htask, hinside, hwakeAt, hkernelMemory, hcpuTime, hstarted, hq, hc,
    fun epoch he more hmore hb => ?_, fun more hmore hstopped => ?_⟩
  · -- The operation leaves no guest, so a task that waited before it is of an older epoch ever after.
    have hends : m.Ends site (op :: more) := ⟨[], op, more, rfl, .inr hguest⟩
    have holder := hends.older ⟨ha, hmore⟩ hm he
    exact (hmore.regular hregular).voids site hb.1 hb.2 holder
  · have hlater := hmore.regular hregular
    have hnone := hlater.guest_none (.inl hstopped)
    exact start_fresh site hstopped hnone (hlater.idle hnone).2.1 (hmore.tidy hregular htidy hnone)

/-- What a machine prints, and what it reports for a log, announces nothing. -/
theorem report_announcements (texts : List String) (n : Notice) (m : Machine ν) :
    (m.tellAll (texts.map .printed ++ [.noticed n])).announcements = m.announcements := by
  refine (tellAll_tells (fun e he => ?_) m).silent.announcements
  rcases List.mem_append.1 he with he | he
  · obtain ⟨text, -, rfl⟩ := List.mem_map.1 he
    exact ⟨rfl, rfl⟩
  · rw [List.mem_singleton.1 he]
    exact ⟨rfl, rfl⟩

theorem start_undone (hm : m.Regular) (ht : m.Tidy) (hs : m.state = .stopped) (hf : ¬(m.start site).1) :
    Undone site m (m.start site).2 := by
  obtain ⟨texts, f, outside, -, hstart⟩ := start_failed hs hf
  refine .of_operation .start hm ht trivial ?_ ?_ ?_ <;> rw [Operation.perform, hstart]
  · exact hs
  · exact .inl rfl
  · exact congrArg (List.count .started) (report_announcements texts (.startFailed f) m)

/-- An update that was to start the machine again may announce the end of its run. -/
theorem restart_undone (hm : m.Regular) (ht : m.Tidy) (hs : m.state = .rebooting) (hf : (m.update site).guest = none) :
    Undone site m (m.update site) := by
  obtain ⟨m', hupdate, hstopped, -, hqueue, -⟩ := update_rebooting site hs (hm.guest_none (.inr hs))
  have hfailed : ¬(m'.start site).1 := by
    rcases start_cases site m' with ⟨-, hsome, -⟩ | ⟨hfailed, -⟩
    · rw [← hupdate, hf] at hsome
      cases hsome
    · exact hfailed
  obtain ⟨texts, f, outside, -, hstart⟩ := start_failed hstopped hfailed
  refine .of_operation .update hm ht trivial ?_ (.inl ?_) ?_
  · rw [Operation.perform, hupdate, hstart]
    exact hstopped
  · rw [Operation.perform, hupdate, hstart]
    exact hqueue
  · obtain ⟨-, hannouncements, -⟩ := ticked_announces site m
    have hreboot : (ticked site m).1 = .reboot := by
      have hnoted : (noted site m).state = .rebooting := hs
      rw [ticked_noted, advance, hnoted]
    have hbegun : update site m = (start site (ticked site m).2.close).2 := by
      rw [update_ticked, hreboot]
      rfl
    rw [Operation.perform, hbegun]
    rcases start_announces site (ticked site m).2.close with ⟨-, hsome, -⟩ | ⟨hsilent, -⟩
    · rw [← hbegun, hf] at hsome
      cases hsome
    · rw [hsilent.announcements, (close_tells _).silent.announcements, hannouncements, List.count_append]
      split <;> rfl

theorem load_undone (hm : m.Regular) (ht : m.Tidy) (hi : m.inside = none) (h : Rejects site r m f) :
    Undone site m (m.load site r) := by
  have hqueue : m.close.queue = m.queue ∨ m.close.queue = m.queue.clear := by
    unfold close
    dsimp only
    split
    · exact .inl rfl
    · exact .inr rfl
  obtain ⟨texts, outside, -, hload⟩ := load_rejected h
  refine .of_operation (.load r) hm ht hi ?_ ?_ ?_ <;> rw [Operation.perform, hload]
  · exact close_state m
  · exact hqueue
  · refine congrArg (List.count Announcement.started) ?_
    exact (report_announcements texts (.discarded f) (m.close.readdressed r)).trans (close_tells m).silent.announcements

/-- What failures of a machine come to. -/
structure Undoes (site : Site ν) (m : Machine ν) : Prop where
  start : m.state = .stopped → ¬(m.start site).1 → Undone site m (m.start site).2
  restart : m.state = .rebooting → (m.update site).guest = none → Undone site m (m.update site)
  /-- These are the records that cannot be restored. -/
  rejects : ∀ r f, (Machine.tryLoad site r m.close).1 = .error f ↔ Rejects site r m f
  load : ∀ r f, m.inside = none → Rejects site r m f → Undone site m (m.load site r)

end Machine

/-- Whatever has been done to a machine, a start that fails and a record that is rejected leave it as if there had been
no run, wherever they fail. -/
theorem failures_undone {ν : Type} {site : Site ν} {catalog : Catalog} {outside : ν} {ops : List (Operation ν)}
    (ha : Admits site ops (fresh site catalog outside)) :
    Undoes site (after site ops (fresh site catalog outside)) := by
  have hregular := ha.regular (fresh_regular site catalog outside)
  have htidy := ha.tidy (fresh_regular site catalog outside) (fresh_tidy site catalog outside)
  exact ⟨start_undone hregular htidy, restart_undone hregular htidy, fun _ _ => rejects_iff,
    fun _ _ => load_undone hregular htidy⟩

/-- A machine whose kernel never comes to a `yield`. -/
def futile : Machine Console :=
  fresh consoleSite ⟨none, Catalog.defaultBoot, "return 1", []⟩ ⟨0, 0⟩

/-- It is started neither at first nor for a record of a reboot, and another machine is not for a record without a
kernel. -/
theorem futile_undone :
    (∃ m, m = futile ∧ ¬(m.start consoleSite).1 ∧ Undone consoleSite m (m.start consoleSite).2) ∧
    (∃ m, m = after consoleSite [.load (.ofState State.rebooting.code)] futile ∧ m.state = .rebooting ∧
      Undone consoleSite m (m.update consoleSite)) ∧
    ∃ m, m = after consoleSite keyed untouched ∧ m.waiting = [0] ∧
      Rejects consoleSite (.ofState State.yielded.code) m (Corruption.missing .kernel).failure ∧
      Undone consoleSite m (m.load consoleSite (.ofState State.yielded.code)) := by
  have hfailed : ¬(futile.start consoleSite).1 := by decide +kernel
  obtain ⟨hloads, hrebooting, hupdate⟩ : Admits consoleSite [.load (.ofState State.rebooting.code)] futile ∧
      (after consoleSite [.load (.ofState State.rebooting.code)] futile).state = .rebooting ∧
      ((after consoleSite [.load (.ofState State.rebooting.code)] futile).update consoleSite).guest.isNone := by
    decide +kernel
  obtain ⟨hadmits, hwaits, hfree, hrejected⟩ : Admits consoleSite keyed untouched ∧
      (after consoleSite keyed untouched).waiting = [0] ∧ (after consoleSite keyed untouched).inside = none ∧
      (tryLoad consoleSite (.ofState State.yielded.code) (after consoleSite keyed untouched).close).1 =
        .error (Corruption.missing .kernel).failure := by
    decide +kernel
  have hadmitted : Admits consoleSite [] futile := trivial
  have hnew : Undoes consoleSite futile := failures_undone hadmitted
  have hloaded := failures_undone hloads
  have hkeyed := failures_undone hadmits
  have hrejects := (hkeyed.rejects _ _).1 hrejected
  exact ⟨⟨_, rfl, hfailed, hnew.start rfl hfailed⟩,
    ⟨_, rfl, hrebooting, hloaded.restart hrebooting (Option.isNone_iff_eq_none.1 hupdate)⟩,
    ⟨_, rfl, hwaits, hrejects, hkeyed.load _ _ hfree hrejects⟩⟩

end VirtualComputer
