import VirtualComputer.Guest.Scalar
import VirtualComputer.Json.Reader
import VirtualComputer.Json.Writer
import VirtualComputer.Text.Utf8

/-!
# Records

A record is what is kept of a machine while it is out of memory.  Signals are recorded with their
arguments under names, `arg0` and so on, and absent arguments left out; a name that is missing
reads back as absent.  Fields of a machine that has nothing to say about them are left out.
-/

namespace VirtualComputer

/-! ## Signals -/

/-- A signal with its arguments under names, of which there may be more than its own. -/
structure SignalRecord where
  name : String
  length : Nat
  values : Entries Scalar

namespace SignalRecord

/-- The name of an argument. -/
def argName (i : Nat) : String :=
  "arg" ++ Decimal.integerText i

/-- The arguments that are not absent, under their names. -/
def namedFrom (i : Nat) : List Scalar → List (String × Scalar)
  | [] => []
  | a :: rest => (if a.isNothing then [] else [(argName i, a)]) ++ namedFrom (i + 1) rest

/-- The record of a signal. -/
def ofSignal (s : Signal) : SignalRecord :=
  ⟨s.name, s.args.length, Entries.ofList (namedFrom 0 s.args)⟩

/-- The signal of a record. -/
def toSignal (r : SignalRecord) : Signal :=
  ⟨r.name, (List.range r.length).map fun i =>
    (Entries.get? (argName i) r.values).getD .nothing⟩

/-- The stored form of the arguments. -/
def argsToJson (r : SignalRecord) : Json :=
  .obj (("length", .nat r.length) :: r.values.map fun (k, a) => (k, a.toJson))

/-- The stored form of a record. -/
def toJson (r : SignalRecord) : Json :=
  .obj [("name", .str r.name), ("args", argsToJson r)]

/-- The length and the named arguments of a stored object. -/
def args? : Json → Option (Nat × Entries Scalar)
  | .obj members => do
    let length ← Json.required? Json.asNat? (← Json.Fields.one? members "length")
    let others := members.filter (·.1 ≠ "length")
    let values ← others.mapM fun (m : String × Json) =>
      (Scalar.ofJson? m.2).map fun a => (m.1, a)
    return (length, Entries.ofList values)
  | _ => none

/-- Reads the stored form of a record. -/
def ofJson? (j : Json) : Option SignalRecord := do
  match ← (← Json.Fields.of? j).collect? ["name", "args"] with
  | [name, args] =>
    let name ← Json.required? Json.asStr? name
    let (length, values) ← Json.required? args? args
    return ⟨name, length, values⟩
  | _ => none

end SignalRecord

/-! ## Machines -/

structure MachineRecord where
  /-- The code of the state. -/
  state : Int
  /-- The bytes of the kernel coroutine. -/
  kernel : Option Bytes
  /-- The bytes of the pending call or its result. -/
  stack : Option Bytes
  signals : Option (List SignalRecord)
  /-- What is kept of the catalog. -/
  rom : Option Json
  kernelMemory : Option Nat
  started : Option Int
  /-- Nanoseconds of processor time. -/
  cpuTime : Option Int
  message : Option String

namespace MachineRecord

/-- A record of nothing but a state. -/
def ofState (code : Int) : MachineRecord where
  state := code
  kernel := none
  stack := none
  signals := none
  rom := none
  kernelMemory := none
  started := none
  cpuTime := none
  message := none

/-- The stored form of bytes. -/
def bytesToJson (b : Bytes) : Json :=
  .arr (b.map fun byte => .nat byte.toNat)

/-- A member of an object that is left out if there is nothing to say. -/
def field {α : Type} (name : String) (f : α → Json) : Option α → List (String × Json)
  | none => []
  | some a => [(name, f a)]

/-- The stored form of a record. -/
def toJson (r : MachineRecord) : Json :=
  .obj <|
    [("state", .int r.state)] ++
    field "kernel" bytesToJson r.kernel ++
    field "stack" bytesToJson r.stack ++
    field "signals" (fun ss => .arr (ss.map SignalRecord.toJson)) r.signals ++
    field "rom" id r.rom ++
    field "kernelMemory" .nat r.kernelMemory ++
    field "timeStarted" .int r.started ++
    field "cpuTime" .int r.cpuTime ++
    field "message" .str r.message

/-- One byte of a stored list. -/
def byte? (j : Json) : Option UInt8 :=
  (j.asInt? .byte).map fun i => i.toNat.toUInt8

/-- A signed word of 64 bits. -/
def word? : Json → Option Int :=
  Json.asInt? .signed64

/-- Reads the stored form of a record. -/
def ofJson? (j : Json) : Option MachineRecord := do
  let names := ["state", "kernel", "stack", "signals", "rom", "kernelMemory", "timeStarted",
    "cpuTime", "message"]
  match ← (← Json.Fields.of? j).collectFirst? names with
  | [state, kernel, stack, signals, rom, kernelMemory, started, cpuTime, message] =>
    return {
      state := ← Json.required? (Json.asInt? .signed32) state
      kernel := ← Json.optional? (Json.list? byte?) kernel
      stack := ← Json.optional? (Json.list? byte?) stack
      signals := ← Json.optional? (Json.list? SignalRecord.ofJson?) signals
      rom := ← Json.optional? (fun j => if j.isUsable then some j.sorted else none) rom
      kernelMemory := ← Json.optional? Json.asNat? kernelMemory
      started := ← Json.optional? word? started
      cpuTime := ← Json.optional? word? cpuTime
      message := ← Json.optional? Json.asStr? message }
  | _ => none

end MachineRecord

end VirtualComputer
