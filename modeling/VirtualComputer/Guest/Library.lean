import VirtualComputer.Guest.Call
import VirtualComputer.Guest.Execution

/-!
# The library of globals

The globals that guests find, and the runtime of a coroutine that calls natives of a host under a
memory ceiling.
-/

namespace VirtualComputer

/-- The names of all globals of the library. -/
def globalNames : List String :=
  Native.builtins.map Native.name ++ ["computer", "component", "system", "drivers", "persistence"]

/-- A table of natives under their names in it. -/
def nativeTable (entries : List (String × Native)) : Val :=
  .obj (Entries.ofList (entries.map fun (k, n) => (k, .native n)))

/-- The globals of a fresh interpreter: the natives, the time allowed for a resume in seconds, and
the sources of the drivers. -/
def library (timeout : Float) (drivers : Entries String) : Entries Val :=
  Entries.ofList <|
    Native.builtins.map (fun n => (n.name, .native n)) ++ [
      ("computer", nativeTable [
        ("clock", .clock), ("time", .time), ("uptime", .uptime), ("freeMemory", .freeMemory),
        ("totalMemory", .totalMemory), ("address", .address), ("bootAddress", .bootAddress)]),
      ("component", nativeTable [("invoke", .invoke), ("name", .peerName)]),
      ("persistence", nativeTable [("persist", .persist), ("unpersist", .unpersist)]),
      ("system", .obj [("timeout", .num timeout)]),
      ("drivers", .obj (drivers.map fun (name, source) => (name, .str source)))]

/-- How a coroutine runs with a host: `baseline` bytes are in use beside the coroutine. -/
def Runtime.ofHost {σ : Type} (host : Host σ) (globals : Entries Val) (baseline : Nat)
    (conditions : Conditions) : Runtime (Session σ) where
  globals := globals
  call n args s := n.call host conditions args s
  admits co s :=
    let used := baseline + co.footprint
    (conditions.limit.all (used ≤ ·), { s with used })

end VirtualComputer
