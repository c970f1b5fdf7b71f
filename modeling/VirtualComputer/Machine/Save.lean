import VirtualComputer.Machine.Record
import VirtualComputer.Machine.Start

/-!
# Saving and loading machines

A machine at rest is saved to a record, and a record replaces the run of a machine.  States that
differ only in what happens to be pending are saved alike, and loading resumes them when the world
updates the machine next.  A record that cannot be restored leaves the machine stopped.
-/

namespace VirtualComputer

/-! ## Corrupt records -/

/-- The part of a record that holds the bytes of a value. -/
inductive Part where
  | kernel
  | stack
  deriving DecidableEq, Repr

def Part.name : Part → String
  | .kernel => "kernel"
  | .stack => "stack"

/-- Why a record cannot be restored. -/
inductive Corruption where
  | unknownCode (code : Int)
  | midTransition (state : State)
  | missing (part : Part)
  /-- The guest has no way to restore values. -/
  | noWay (part : Part)
  | faulty (part : Part) (f : Fault)
  | notThread (kind : Kind)
  | notCall (kind : Kind)
  | notResult (kind : Kind)

/-- The text of a corruption. -/
def Corruption.message : Corruption → String
  | .unknownCode code => "unknown state code " ++ Decimal.integerText code
  | .midTransition s => "saved mid-transition in " ++ s.name
  | .missing p => p.name ++ " snapshot missing"
  | .noWay p => "no way to restore the " ++ p.name
  | .faulty p f => p.name ++ ": " ++ f.message
  | .notThread k => "kernel restored as a " ++ k.name
  | .notCall k => "pending call restored as a " ++ k.name
  | .notResult k => "call result restored as a " ++ k.name

/-- The failure of a load that finds a corruption. -/
def Corruption.failure (c : Corruption) : Failure :=
  .corrupt c.message

namespace Machine

variable {ν : Type} (site : Site ν)

/-! ## Saving -/

/-- The bytes of a value, with a notice if they could not be written. -/
def persist (g : Guest) (v : Option Val) (m : Machine ν) : Bytes × Machine ν :=
  let (bytes, warning) := g.persist (v.getD .null)
  (bytes, warning.elim m fun w => m.tell (.noticed (.snapshot w)))

/-- The record of a machine with a guest, in a state. -/
def recordRun (state : State) (g : Guest) (m : Machine ν) : MachineRecord × Machine ν :=
  let (kernel, m) := m.persist g g.kernel
  let (stack, m) : Option Bytes × Machine ν :=
    if state = .synchronizedCall || state = .synchronizedReturn then
      let (stack, m) := m.persist g g.pending
      (some stack, m)
    else (none, m)
  ({ state := state.code
     kernel := some kernel
     stack
     signals := some (m.queue.signals.map SignalRecord.ofSignal)
     rom := some m.catalog.save
     kernelMemory := some m.ledger.kernelMemory
     started := some m.ledger.started
     cpuTime := some m.ledger.cpuTime
     message := m.message }, m)

/-- Writes the machine to a record. -/
def save (m : Machine ν) : Except Failure MachineRecord × Machine ν :=
  match m.state with
  | .running => (.error (.scheduling "save while a resume is in flight"), m)
  | .stopping | .stopped => (.ok (.ofState State.stopped.code), m)
  | .rebooting => (.ok (.ofState State.rebooting.code), m)
  | s =>
    match m.guest with
    | none => (.error (.scheduling (s.name ++ " without an interpreter")), m)
    | some g =>
      let (r, m) := m.recordRun s.collapsed g
      (.ok r, m)

/-! ## Loading -/

/-- The value of a part of a record. -/
def restorePart (g : Guest) (part : Part) (bytes : Option Bytes) : Except Corruption Val :=
  match bytes with
  | none | some [] => .error (.missing part)
  | some bytes =>
    match g.restore bytes with
    | .ok (some v) => .ok v
    | .ok none => .error (.noWay part)
    | .error f => .error (.faulty part f)

/-- The kernel of a record. -/
def restoreKernel (g : Guest) (r : MachineRecord) : Except Corruption Val := do
  match ← restorePart g .kernel r.kernel with
  | .thread co => return .thread co
  | v => throw (.notThread v.kind)

/-- What a record has in the pending slot, which depends on the state. -/
def restorePending (state : State) (g : Guest) (r : MachineRecord) :
    Except Corruption (Option Val) := do
  match state with
  | .synchronizedCall =>
    let v ← restorePart g .stack r.stack
    if v.isCallable then return some v else throw (.notCall v.kind)
  | .synchronizedReturn =>
    match ← restorePart g .stack r.stack with
    | .list items => return some (.list items)
    | v => throw (.notResult v.kind)
  | _ => return none

/-- A guest that has booted, with the slots of a record. -/
def restoreGuest (state : State) (g : Guest) (r : MachineRecord) : Except Corruption Guest := do
  let kernel ← restoreKernel g r
  let pending ← restorePending state g r
  return { g with kernel := some kernel, pending := pending.or g.pending }

/-- The state in which a run goes on that was saved in a state. -/
def restoredState : State → State
  | .yielded | .sleeping | .paused => .paused
  | .synchronizedReturn => .synchronizedReturnPaused
  | s => s

/-- Goes on with a restored guest. -/
def resumeRun (state : State) (g : Guest) (r : MachineRecord) (m : Machine ν) : Machine ν :=
  let ledger := { m.ledger with
    kernelMemory := r.kernelMemory.getD 0
    started := r.started.getD 0
    cpuTime := r.cpuTime.getD 0 }
  let g := { g.remeasured with limit := some (ledger.ceiling site.settings.memoryBudget) }
  { m with
    queue := m.queue.replace ((r.signals.getD []).map SignalRecord.toSignal)
    ledger
    guest := some g
    state := restoredState state
    wakeAt := none
    updated := false
    announced := true
    lastUpdate := site.now m.outside
    message := r.message }

/-- Restores the run of a record in a state with a guest. -/
def loadRun (state : State) (r : MachineRecord) (m : Machine ν) :
    Except Failure Unit × Machine ν :=
  match bootGuest site m with
  | (.error f, m) => (.error f, m)
  | (.ok g, m) =>
    match restoreGuest state g r with
    | .error c => (.error c.failure, m)
    | .ok g => (.ok (), resumeRun site state g r m)

/-- Restores a record on a machine that has been torn down. -/
def tryLoad (r : MachineRecord) (m : Machine ν) : Except Failure Unit × Machine ν :=
  let m := { m with catalog := r.rom.elim m.catalog m.catalog.load }
  match State.ofCode? r.state with
  | none => (.error (Corruption.unknownCode r.state).failure, m)
  | some .stopped => (.ok (), { m with message := r.message })
  | some .rebooting =>
    (.ok (), { m with state := .rebooting, announced := true, message := r.message })
  | some .running => (.error (Corruption.midTransition .running).failure, m)
  | some .stopping => (.error (Corruption.midTransition .stopping).failure, m)
  | some s => loadRun site s r m

/-- Replaces the run of a machine with the one in a record. -/
def load (r : MachineRecord) (m : Machine ν) : Machine ν :=
  match tryLoad site r m.close with
  | (.ok (), m) => m
  | (.error f, m) => (m.tell (.noticed (.discarded f))).close

end Machine

end VirtualComputer
