import VirtualComputer.Proofs.Machine.Reachable

/-!
# Histories

The history of a machine lists what has happened to its guest and its queue while it was operated: signals that
arrived, resumes that workers began and finished, calls that updates made, and the ends of runs.  Every operation adds
to the history what it does (`signalLog`, `updateLog` and so on), which is read off the operation itself.
-/

namespace VirtualComputer

/-- What happens in a machine. -/
inductive Occurrence where
  /-- A signal has entered the queue. -/
  | accepted (s : Signal)
  | refused (s : Signal)
  /-- A worker is about to resume the guest; a signal that it delivers has left the queue. -/
  | began (d : Delivery)
  /-- A worker has put a resume off because the world is stalled. -/
  | parked
  /-- The kernel has been resumed with a value, has come to an outcome, and is left as another coroutine. -/
  | resumed (d : Delivery) (delivered : Val) (co : Thread) (r : Except Fault Outcome) (left : Thread)
  /-- The world has updated the machine, whose guest was free or held by a worker. -/
  | updated (free : Bool)
  /-- The pending call has been made, and what it has come to. -/
  | invoked (call : Val) (r : Except Val Val)
  /-- A run goes on from a record, which has replaced the queue by signals of its own. -/
  | loaded (state : State) (g : Guest) (signals : List Signal)
  /-- The run has been torn down: the guest is released and the queue cleared. -/
  | closed

/-! ## What guests do -/

namespace Guest

variable {σ : Type}

/-- What a resume of the kernel adds to the history. -/
def resumption (host : Host σ) (steps : Nat) (d : Delivery) (g : Guest) (world : σ) : List Occurrence :=
  match g.delivery d, g.kernel with
  | (.ok v, g), some (.thread co) =>
    let rt := Runtime.ofHost host g.globals g.baseline ⟨g.limit, false⟩
    let (r, left, _) := co.resume rt steps v ⟨g.baseline + co.footprint, world⟩
    [.resumed d v co r left]
  | _, _ => []

/-- What making the pending call adds to the history. -/
def invocation (host : Host σ) (g : Guest) (world : σ) : List Occurrence :=
  match g.pending with
  | none => []
  | some v =>
    match v.callable? with
    | none => []
    | some (n, args) => [.invoked v (n.call host ⟨g.limit, true⟩ args ⟨0, world⟩).1]

end Guest

/-! ## What operations do -/

namespace Machine

variable {ν : Type} (site : Site ν)

def signalLog (s : Signal) (m : Machine ν) : List Occurrence :=
  [if (m.signal s).1 then .accepted s else .refused s]

/-- What a teardown adds; there is none without a run. -/
def closeLog (m : Machine ν) : List Occurrence :=
  if m.state = .stopped && m.guest.isNone then [] else [.closed]

/-- What an operation adds that may tear a run down, which begins a new epoch. -/
def endLog (m m' : Machine ν) : List Occurrence :=
  if m'.epoch = m.epoch then [] else [.closed]

def stopLog (m : Machine ν) : List Occurrence :=
  m.endLog m.stop.2

def relayLog (s : Signal) (m : Machine ν) : List Occurrence :=
  if m.isRunning then m.signalLog s else []

/-- What a message adds, where `start` is what a start would add. -/
def handleLog (start : List Occurrence) (msg : Message) (m : Machine ν) : List Occurrence :=
  match msg.name with
  | "network.connect" => m.relayLog ⟨"component_added", [.str msg.peer]⟩
  | "network.disconnect" => m.relayLog ⟨"component_removed", [.str msg.peer]⟩
  | "network.reconnect" => m.relayLog ⟨"component_changed", [.str msg.peer, msg.data[1]?.getD .nothing]⟩
  | "computer.signal" =>
    match msg.data with
    | .str name :: args => m.signalLog ⟨name, .str msg.source :: args⟩
    | _ => []
  | "computer.start" => start
  | "computer.stop" => m.stopLog
  | "computer.running" => []
  | _ => []

def grantLog (r : Request) (m : Machine ν) : List Occurrence :=
  match r with
  | .signal s => m.signalLog s
  | .receive msg => m.handleLog [] msg

/-- What the requests of an exchange add. -/
def converseLog : Exchange ν → Machine ν → List Occurrence
  | .answer _ _, _ => []
  | .request r next, m =>
    m.grantLog r ++ converseLog (next (m.grant r).1) ((m.grant r).2.tell (.requested r (m.grant r).1))

/-- What is requested of the machine while it makes the pending call of its guest. -/
def callLog (g : Guest) (m : Machine ν) : List Occurrence :=
  match g.pending.bind Val.callable? with
  | some (.send, args) =>
    match Native.message args with
    | .ok (target, method, payload) =>
      converseLog (site.call target method payload m.outside) (m.tell (.called target method payload))
    | .error _ => []
  | _ => []

/-- What signals add that arrive at a queue one after the other. -/
def pushLog : List Signal → SignalQueue → List Occurrence
  | [], _ => []
  | s :: ss, q => (if (q.push s).1 then .accepted s else .refused s) :: pushLog ss (q.push s).2

/-- What a start adds: the neighbors are added one by one once a run has begun. -/
def startLog (m : Machine ν) : List Occurrence :=
  if (m.start site).1 then
    pushLog ((site.peers m.outside).map fun peer => ⟨"component_added", [.str peer]⟩) m.queue
  else []

def receiveLog (msg : Message) (m : Machine ν) : List Occurrence :=
  m.handleLog (startLog site m) msg

def beginTaskLog (epoch : Nat) (m : Machine ν) : List Occurrence :=
  match (beginTask site epoch m).inside with
  | some d => [.began d]
  | none =>
    if (beginTask site epoch m).epoch ≠ m.epoch then [.closed]
    else if (beginTask site epoch m).state ≠ m.state then [.parked]
    else []

def finishTaskLog (m : Machine ν) : List Occurrence :=
  match m.inside, m.guest with
  | some d, some g => g.resumption (host site) site.steps d m ++ m.endLog (finishTask site m)
  | _, _ => []

/-- What the call adds that the kernel has asked for. -/
def synchronizeLog (m : Machine ν) : List Occurrence :=
  match m.inside, m.guest with
  | none, some g =>
    let calling := { m with state := .running }
    callLog site g calling ++ g.invocation (host site) calling ++ m.endLog (synchronize site m)
  | _, _ => []

def performLog (a : Action) (m : Machine ν) : List Occurrence :=
  match a with
  | .nothing => []
  | .reboot => m.closeLog ++ startLog site m.close
  | .call => synchronizeLog site m

/-- What remains to be done in an update, and the machine then. -/
def ticked (m : Machine ν) : Action × Machine ν :=
  let ended := m.announced && (m.state = .stopped || m.state = .rebooting)
  let (action, m) := advance { m with
    ledger := { m.ledger with worldTime := site.worldTime m.outside }
    lastUpdate := site.now m.outside
    updated := m.updated || m.state ≠ .stopped
    announced := m.announced && !ended }
  let (message, m) := m.takeMessage
  (action, showMessage site message (announceEnd site ended m))

theorem update_ticked (m : Machine ν) : update site m = perform site (ticked site m).1 (ticked site m).2 := rfl

theorem ticked_noted (m : Machine ν) :
    ticked site m = ((advance (noted site m)).1, shown site m.ended (advance (noted site m)).2) := rfl

def updateLog (m : Machine ν) : List Occurrence :=
  .updated m.inside.isNone :: performLog site (ticked site m).1 (ticked site m).2

/-- What a load adds: the run that there is ends, and the one of the record goes on. -/
def loadLog (r : MachineRecord) (m : Machine ν) : List Occurrence :=
  m.closeLog ++
    match tryLoad site r m.close with
    | (.ok (), m') =>
      m'.guest.elim [] fun g =>
        [.loaded m'.state g (((r.signals.getD []).map SignalRecord.toSignal).take m.queue.capacity)]
    | (.error _, _) => []

/-- One tick that finds the guest still held by the worker that has just come to a call. -/
def deferred (m : Machine ν) : Machine ν :=
  { update site { m with inside := some .nothing } with inside := none }

end Machine

open Machine

/-- What may have happened to a machine when operations and the steps of workers follow each other in any order.  As
for `Reachable` machines, what needs the guest waits until no worker has it, but for an update, which makes a call
later that the kernel has just asked for. -/
inductive History : {ν : Type} → Site ν → Machine ν → List Occurrence → Prop
  | fresh {ν : Type} (site : Site ν) (catalog : Catalog) (outside : ν) :
      History site (fresh site catalog outside) []
  | start {ν : Type} {site : Site ν} {m : Machine ν} {log : List Occurrence} (h : History site m log) :
      History site (m.start site).2 (log ++ m.startLog site)
  | stop {ν : Type} {site : Site ν} {m : Machine ν} {log : List Occurrence} (h : History site m log) :
      History site m.stop.2 (log ++ m.stopLog)
  | signal {ν : Type} {site : Site ν} {m : Machine ν} {log : List Occurrence} (h : History site m log) (s : Signal) :
      History site (m.signal s).2 (log ++ m.signalLog s)
  | update {ν : Type} {site : Site ν} {m : Machine ν} {log : List Occurrence} (h : History site m log) :
      History site (m.update site) (log ++ m.updateLog site)
  | deferred {ν : Type} {site : Site ν} {m : Machine ν} {log : List Occurrence} (h : History site m log)
      (hs : m.state = .synchronizedCall) :
      History site (m.deferred site) (log ++ Machine.updateLog site { m with inside := some .nothing })
  | receive {ν : Type} {site : Site ν} {m : Machine ν} {log : List Occurrence} (h : History site m log)
      (msg : Message) : History site (m.receive site msg).2 (log ++ m.receiveLog site msg)
  | save {ν : Type} {site : Site ν} {m : Machine ν} {log : List Occurrence} (h : History site m log)
      (hi : m.inside = none) : History site m.save.2 log
  | load {ν μ : Type} {site : Site ν} {m : Machine ν} {log : List Occurrence} {origin : Site μ} {saved : Machine μ}
      {before : List Occurrence} {r : MachineRecord} (h : History site m log) (hi : m.inside = none)
      (hs : History origin saved before) (hsi : saved.inside = none) (hr : saved.save.1 = .ok r)
      (hss : ∀ g, saved.guest = some g → g.Standard) (hst : ∀ g, (m.load site r).guest = some g → g.Standard) :
      History site (m.load site r) (log ++ m.loadLog site r)
  /-- A worker takes a task that waits. -/
  | beginTask {ν : Type} {site : Site ν} {m : Machine ν} {log : List Occurrence} (h : History site m log)
      (hi : m.inside = none) {epoch : Nat} (he : epoch ∈ m.waiting) :
      History site (beginTask site epoch { m with waiting := m.waiting.erase epoch })
        (log ++ beginTaskLog site epoch { m with waiting := m.waiting.erase epoch })
  | finishTask {ν : Type} {site : Site ν} {m : Machine ν} {log : List Occurrence} (h : History site m log) :
      History site (m.finishTask site) (log ++ m.finishTaskLog site)
  /-- The world changes, and takes note of what it has been told. -/
  | elsewhere {ν : Type} {site : Site ν} {m : Machine ν} {log : List Occurrence} (h : History site m log)
      (outside : ν) (told : List Event) : History site { m with outside, told } log

variable {ν : Type} {site : Site ν} {m : Machine ν} {log : List Occurrence}

/-- All reachable machines have histories. -/
theorem Reachable.history (h : Reachable site m) : ∃ log, History site m log := by
  induction h with
  | fresh site catalog outside => exact ⟨_, .fresh site catalog outside⟩
  | start _ ih => exact ⟨_, ih.choose_spec.start⟩
  | stop _ ih => exact ⟨_, ih.choose_spec.stop⟩
  | signal _ s ih => exact ⟨_, ih.choose_spec.signal s⟩
  | update _ ih => exact ⟨_, ih.choose_spec.update⟩
  | receive _ msg ih => exact ⟨_, ih.choose_spec.receive msg⟩
  | save _ hi ih => exact ⟨_, ih.choose_spec.save hi⟩
  | load _ hi _ hsi hr hss hst ih ihs => exact ⟨_, ih.choose_spec.load hi ihs.choose_spec hsi hr hss hst⟩
  | beginTask _ hi he ih => exact ⟨_, ih.choose_spec.beginTask hi he⟩
  | finishTask _ ih => exact ⟨_, ih.choose_spec.finishTask⟩
  | elsewhere _ outside told ih => exact ⟨_, ih.choose_spec.elsewhere outside told⟩

namespace Machine

/-- A machine that waits for a call waits on while the guest is held. -/
theorem deferred_lifecycle (hi : m.inside = none) (hs : m.state = .synchronizedCall) :
    (m.deferred site).lifecycle = m.lifecycle := by
  rcases m with ⟨state, guest, task, epoch, waiting, inside, _⟩
  cases hi
  cases hs
  simp [deferred, update, advance, takeMessage, announceEnd, showMessage, perform, synchronize, lifecycle]

end Machine

/-- Whatever has happened, the machine is in order. -/
theorem History.sound (h : History site m log) : m.Sound := by
  induction h with
  | fresh site catalog outside => exact .empty (.inl rfl) nofun
  | start _ ih => exact start_sound ih
  | stop _ ih => exact stop_sound ih
  | signal _ s ih =>
    rw [Machine.Sound, signal_lifecycle]
    exact ih
  | update _ ih => exact update_sound ih
  | deferred _ hs ih =>
    obtain ⟨g, hfree, -, -⟩ := ih.free_call hs
    rw [Machine.Sound, deferred_lifecycle hfree.inside hs]
    exact ih
  | receive _ msg ih => exact receive_sound msg ih
  | save _ _ ih => exact save_sound ih
  | load _ hi _ hsi hr hss hst ih ihs => exact load_sound ih hi (save_saved ihs hsi hss hr) hst
  | beginTask _ hi he ih => exact beginTask_sound ih hi he
  | finishTask _ ih => exact finishTask_sound ih
  | elsewhere _ outside told ih => exact ih

end VirtualComputer
