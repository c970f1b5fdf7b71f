import VirtualComputer.Grammar.Statement
import VirtualComputer.Machine.Inbox
import VirtualComputer.Validation

/-!
# Starting a machine

A guest is built from the catalog: the library is installed, the boot program runs to its end and
publishes entry points, and the kernel runs to its first `yield`.  What the kernel holds then is
not counted against user programs.
-/

namespace VirtualComputer

/-- Reads and checks a program; `what` names it in the failure. -/
def compile (what source : String) : Except Failure Stmt :=
  match Grammar.parse source with
  | .error e => .error (.boot (what ++ ": " ++ e.message))
  | .ok program =>
    match program.problems.find? Problem.isError with
    | some p => .error (.boot (what ++ ": " ++ p.message))
    | none => .ok program

/-- The failure of a start in which a program caused a fault. -/
def Fault.atBoot (what : String) : Fault → Failure
  | .allocationLimit => .allocationLimit
  | .runtime d => .boot (what ++ ": " ++ d)
  | .protocol d | .internal d => .protocol d
  | .outOfSteps => .boot (what ++ ": " ++ Fault.outOfSteps.message)

namespace Machine

variable {ν : Type} (site : Site ν)

/-- Builds a guest whose boot program has run. -/
def bootGuest (m : Machine ν) : Except Failure Guest × Machine ν :=
  let g := Guest.empty.install site.settings.timeout m.catalog.drivers
  match compile "boot payload" m.catalog.boot with
  | .error f => (.error f, m)
  | .ok program =>
    match g.boot (host site) site.steps program m with
    | (.ok (), g, m) => (.ok g, m)
    | (.error f, _, m) => (.error (f.atBoot "boot payload"), m)

/-- Whether the kernel has come to its first `yield`. -/
def firstYield : Except Fault Progress → Except Failure Unit
  | .ok (.yielded _) => .ok ()
  | .ok _ => .error (.boot "kernel exited during boot")
  | .error f => .error (f.atBoot "kernel")

/-- Builds a guest whose kernel has come to its first `yield`, and sets the memory ceiling. -/
def bootKernel (m : Machine ν) : Except Failure Guest × Machine ν :=
  match bootGuest site m with
  | (.error f, m) => (.error f, m)
  | (.ok g, m) =>
    let floor := g.measure
    match compile "kernel" m.catalog.kernel with
    | .error f => (.error f, m)
    | .ok program =>
      let (r, g, m) := (g.load program).resume (host site) site.steps .nothing m
      match firstYield r with
      | .error f => (.error f, m)
      | .ok () =>
        let g := g.remeasured
        -- the difference stops at zero, but the sum with the overhead wraps round
        let kernelMemory :=
          (Word.unsigned64.wrap (g.used - floor + site.settings.kernelOverhead : Nat)).toNat
        let ledger := { m.ledger with kernelMemory }
        (.ok { g with limit := some (ledger.ceiling site.settings.memoryBudget) },
          { m with ledger })

/-- Begins a run with a guest that is ready. -/
def beginRun (g : Guest) (m : Machine ν) : Machine ν :=
  let m := { m with
    guest := some g
    state := .suspended
    wakeAt := none
    updated := false
    announced := true
    lastUpdate := site.now m.outside
    message := none }
  let queue := (site.peers m.outside).foldl
    (fun queue peer => (queue.push ⟨"component_added", [.str peer]⟩).2) m.queue
  { m with queue }.tellAll [.announced .started, .marked]

/-- Starts a run, and whether one has begun. -/
def start (m : Machine ν) : Bool × Machine ν :=
  if m.state ≠ .stopped then (false, m)
  else
    let now := site.worldTime m.outside
    let m := { m with ledger := { m.ledger with worldTime := now, started := now } }
    match bootKernel site m with
    | (.ok g, m) => (true, beginRun site g m)
    | (.error f, m) =>
      (false, { m with ledger := m.ledger.reset, message := f.display }.tell
        (.noticed (.startFailed f)))

/-- Handles a message from the network. -/
def receive (msg : Message) (m : Machine ν) : Option Scalar × Machine ν :=
  m.handle (start site) msg

end Machine

end VirtualComputer
