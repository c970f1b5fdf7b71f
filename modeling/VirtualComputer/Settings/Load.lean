import VirtualComputer.Settings
import VirtualComputer.Settings.Environment
import VirtualComputer.Settings.Format
import VirtualComputer.Settings.Loose
import VirtualComputer.Settings.Path

/-!
# Loading settings

Settings come from four sources, each of which counts over those before it: the standard settings,
a file, variables of the environment whose names begin with `MACHINE_`, and overrides.
-/

namespace VirtualComputer.Settings

/-! ## Sources -/

/-- What there is of a settings file. -/
inductive File where
  /-- No file, and none is required. -/
  | absent
  /-- A required file that cannot be read. -/
  | missing
  | found (format : Format) (text : String)

/-- Settings that are given directly. -/
structure Overrides where
  workers : Option Nat
  memoryBudget : Option Nat
  pauseThreshold : Option Int

def Overrides.none : Overrides := ⟨.none, .none, .none⟩

/-- Why settings cannot be loaded. -/
inductive LoadError where
  | unreadable
  | mistyped
  | refused (r : Refusal)

/-- The text of a load error. -/
def LoadError.message : LoadError → String
  | .unreadable => "Failed to read configuration sources"
  | .mistyped => "Failed to deserialize configuration"
  | .refused r => r.message

/-- Where the settings file is: at a given path, or where the environment says. -/
def filePath (given : Option String) (env : Environment) : Option String :=
  given.or (env.get? "MACHINE_CONFIG_PATH")

/-! ## Reading -/

/-- The fields of a table or a list; a list gives them in order and may leave out the last. -/
def fields? (names : List String) : Setting → Option (List (Option Setting))
  | .table es => some (names.map fun n => Entries.get? n es)
  | .list items => some ((List.range names.length).map fun i => items[i]?)
  | _ => none

/-- A field that may be absent. -/
def fieldOr {α : Type} (standard : α) (read : Setting → Option α) : Option Setting → Option α
  | none => some standard
  | some v => read v

/-- The names of the settings of the worker pool. -/
def poolNames : List String := ["worker_threads", "thread_name", "niceness"]

/-- The names of the settings of a machine. -/
def machineNames : List String := [
  "memory_budget", "kernel_overhead", "signal_queue_capacity", "timeout_secs",
  "pause_threshold_ms", "ticks_per_second"]

/-- The settings of the worker pool. -/
def readPool? (standard : PoolSettings) (v : Setting) : Option PoolSettings := do
  match ← fields? poolNames v with
  | [workers, threadName, niceness] =>
    return {
      workers := ← fieldOr standard.workers Setting.asNat? workers
      threadName := ← fieldOr standard.threadName Setting.asStr? threadName
      niceness := ← fieldOr standard.niceness Setting.asShortInt? niceness }
  | _ => none

/-- The settings of a machine. -/
def readMachine? (standard : MachineSettings) (v : Setting) : Option MachineSettings := do
  match ← fields? machineNames v with
  | [budget, overhead, capacity, timeout, pause, ticks] =>
    return {
      memoryBudget := ← fieldOr standard.memoryBudget Setting.asNat? budget
      kernelOverhead := ← fieldOr standard.kernelOverhead Setting.asNat? overhead
      queueCapacity := ← fieldOr standard.queueCapacity Setting.asNat? capacity
      timeout := ← fieldOr standard.timeout Setting.asFloat? timeout
      pauseThreshold := ← fieldOr standard.pauseThreshold Setting.asInt? pause
      ticksPerSecond := ← fieldOr standard.ticksPerSecond Setting.asShortNat? ticks }
  | _ => none

/-- The settings of a table. -/
def read? (standard : Settings) (root : Setting) : Option Settings := do
  match ← fields? ["pool", "machine"] root with
  | [pool, machine] =>
    return {
      pool := ← fieldOr standard.pool (readPool? standard.pool) pool
      machine := ← fieldOr standard.machine (readMachine? standard.machine) machine }
  | _ => none

/-! ## Loading -/

/-- The table of settings as a source of raw ones. -/
def toRaw (s : Settings) : Setting :=
  .table <| Entries.ofList [
    ("pool", .table <| Entries.ofList <| poolNames.zip [
      .int s.pool.workers, .str s.pool.threadName, .int s.pool.niceness]),
    ("machine", .table <| Entries.ofList <| machineNames.zip [
      .int s.machine.memoryBudget, .int s.machine.kernelOverhead, .int s.machine.queueCapacity,
      .float s.machine.timeout, .int s.machine.pauseThreshold, .int s.machine.ticksPerSecond])]

/-- The entries of a settings file. -/
def fileEntries? : File → Option (List (String × Setting))
  | .absent => some []
  | .missing => none
  | .found format text => format.read? text

/-- The settings with those that are given directly. -/
def override (o : Overrides) (s : Settings) : Settings where
  pool := { s.pool with workers := o.workers.getD s.pool.workers }
  machine := { s.machine with
    memoryBudget := o.memoryBudget.getD s.machine.memoryBudget
    pauseThreshold := o.pauseThreshold.getD s.machine.pauseThreshold }

/-- Loads settings from all sources. -/
def load (standard : Settings) (file : File) (env : Environment) (o : Overrides) :
    Except LoadError Settings :=
  match fileEntries? file with
  | none => .error .unreadable
  | some es =>
    match read? standard (Setting.lay env.settings (Setting.lay es standard.toRaw)) with
    | none => .error .mistyped
    | some s =>
      let s := s.override o
      match s.check with
      | some r => .error (.refused r)
      | none => .ok s

end VirtualComputer.Settings
