import VirtualComputer.Settings
import VirtualComputer.Toml.Writer

/-!
# The text of settings

Settings are written as two tables, with a line for each setting.  A setting that is too large for
a settings text makes all of them unwritable.
-/

namespace VirtualComputer.Settings

/-- The line of a setting. -/
def settingLine (name value : String) : String :=
  name ++ " = " ++ value

/-- The lines about the worker pool. -/
def poolLines? (p : PoolSettings) : Option (List String) := do
  return [
    "[pool]",
    settingLine "worker_threads" (← Toml.intText? p.workers),
    settingLine "thread_name" (Toml.quote p.threadName),
    settingLine "niceness" (← Toml.intText? p.niceness)]

/-- The lines about a machine. -/
def machineLines? (m : MachineSettings) : Option (List String) := do
  return [
    "[machine]",
    settingLine "memory_budget" (← Toml.intText? m.memoryBudget),
    settingLine "kernel_overhead" (← Toml.intText? m.kernelOverhead),
    settingLine "signal_queue_capacity" (← Toml.intText? m.queueCapacity),
    settingLine "timeout_secs" (Toml.floatText m.timeout),
    settingLine "pause_threshold_ms" (← Toml.intText? m.pauseThreshold),
    settingLine "ticks_per_second" (← Toml.intText? m.ticksPerSecond)]

/-- The lines of settings. -/
def lines? (s : Settings) : Option (List String) := do
  return (← poolLines? s.pool) ++ [""] ++ (← machineLines? s.machine)

end VirtualComputer.Settings
