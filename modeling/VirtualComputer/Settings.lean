import VirtualComputer.Decimal.Shortest

/-!
# Settings

The limits of machines and the worker pool that they share.  `Settings.check` refuses settings
with which no machine could run.
-/

namespace VirtualComputer

/-- The workers that machines share. -/
structure PoolSettings where
  workers : Nat
  threadName : String
  niceness : Int

/-- The limits of one machine. -/
structure MachineSettings where
  /-- The bytes of user programs, beside what the kernel takes itself. -/
  memoryBudget : Nat
  /-- A fixed number of bytes counted with the kernel. -/
  kernelOverhead : Nat
  queueCapacity : Nat
  /-- The seconds that a guest is told it may take between yields. -/
  timeout : Float
  /-- The milliseconds without an update after which the world counts as stalled. -/
  pauseThreshold : Int
  ticksPerSecond : Nat

structure Settings where
  pool : PoolSettings
  machine : MachineSettings

namespace Settings

/-- The settings of a machine where nothing else is given. -/
def standardMachine : MachineSettings where
  memoryBudget := 192 * 1024
  kernelOverhead := 16 * 1024
  queueCapacity := 256
  timeout := 5
  pauseThreshold := 100
  ticksPerSecond := 20

/-- The settings where nothing else is given, for a number of processors. -/
def standard (processors : Nat) : Settings where
  pool := ⟨processors, "machine-worker", 5⟩
  machine := standardMachine

/-! ## Checks -/

/-- Why settings are refused. -/
inductive Refusal where
  | noWorkers
  | noQueue
  | noMemory
  | timeout (seconds : Float)
  | pauseThreshold
  | noTicks

/-- The text of a refusal. -/
def Refusal.message : Refusal → String
  | .noWorkers => "pool.worker_threads must be at least 1"
  | .noQueue => "machine.signal_queue_capacity must be at least 1"
  | .noMemory => "machine.memory_budget must be at least 1 byte"
  | .timeout x => "machine.timeout_secs must be non-negative, got " ++ Decimal.shown x
  | .pauseThreshold => "machine.pause_threshold_ms must be positive"
  | .noTicks => "machine.ticks_per_second must be at least 1"

/-- The first reason to refuse settings, if there is one. -/
def check (s : Settings) : Option Refusal :=
  if s.pool.workers = 0 then some .noWorkers
  else if s.machine.queueCapacity = 0 then some .noQueue
  else if s.machine.memoryBudget = 0 then some .noMemory
  else if !(0 ≤ s.machine.timeout) then some (.timeout s.machine.timeout)
  else if s.machine.pauseThreshold ≤ 0 then some .pauseThreshold
  else if s.machine.ticksPerSecond = 0 then some .noTicks
  else none

end Settings

end VirtualComputer
