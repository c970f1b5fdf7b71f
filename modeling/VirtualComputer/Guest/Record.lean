import VirtualComputer.Guest.Value
import VirtualComputer.Json.Reader
import VirtualComputer.Json.Writer
import VirtualComputer.Syntax.Record

/-!
# Stored guest values

A value is stored as an object with its kind under `t` and its content under `v`.  Coroutines are
stored whole, outermost frame and variable first.  `Val.store` writes a value as text and
`Val.load?` reads one; positions in programs are lost on the way.
-/

namespace VirtualComputer

open Json

/-! ## Writing -/

/-- The kind and content of a stored value. -/
def tagged (kind : String) (content : Json) : Json :=
  .obj [("t", .str kind), ("v", content)]

/-- A stored value without content. -/
def untagged (kind : String) : Json :=
  .obj [("t", .str kind)]

/-- The fields of a stored frame that tell its kind. -/
def FrameKind.fields : FrameKind → List (String × Json)
  | .block next => [("t", .str "Block"), ("idx", .nat next)]
  | .declare => [("t", .str "Declare")]
  | .assign => [("t", .str "Assign")]
  | .branch => [("t", .str "If")]
  | .loop => [("t", .str "While"), ("phase", .str "Test")]
  | .return => [("t", .str "Return")]
  | .attempt phase => [("t", .str "Try"), ("phase", .str phase.tag)]
  | .expr => [("t", .str "Expr")]
  | .break => [("t", .str "Break")]
  | .continue => [("t", .str "Continue")]

def Frame.toJson (f : Frame) : Json :=
  .obj (f.kind.fields ++ [("scope_base_sp", .nat f.base), ("node", f.node.toJson)])

def Status.tag : Status → String
  | .fresh => "Fresh"
  | .suspended => "Suspended"
  | .running => "Running"
  | .dead => "Dead"

mutual

/-- The stored form of a value. -/
def Val.toJson : Val → Json
  | .null => untagged "Null"
  | .bool b => tagged "Bool" (.bool b)
  | .num x => tagged "Num" (.float x)
  | .str s => tagged "Str" (.str s)
  | .list items => tagged "List" (.arr (Val.toJsonItems items))
  | .obj entries => tagged "Obj" (.obj (Val.toJsonEntries entries))
  | .native n => tagged "Native" (.str n.tag)
  | .bound n args =>
    tagged "Bound" (.obj [("native", .str n.tag), ("args", .arr (Val.toJsonItems args))])
  | .thread co => tagged "Thread" (Val.toJsonThread co)
  | .error code message =>
    tagged "Error" (.obj [("code", .str code), ("message", .str message)])

def Val.toJsonItems : List Val → List Json
  | [] => []
  | v :: vs => v.toJson :: Val.toJsonItems vs

def Val.toJsonEntries : List (String × Val) → List (String × Json)
  | [] => []
  | (k, v) :: es => (k, v.toJson) :: Val.toJsonEntries es

def Val.toJsonBindings : List (String × Val) → List Json
  | [] => []
  | (x, v) :: env => .obj [("name", .str x), ("value", v.toJson)] :: Val.toJsonBindings env

def Val.toJsonControl : Control Val → Json
  | .none => untagged "None"
  | .break => untagged "Break"
  | .continue => untagged "Continue"
  | .return v => tagged "Return" v.toJson
  | .throw v => tagged "Throw" v.toJson
  | .suspend v => tagged "Suspend" v.toJson

def Val.toJsonOption : Option Val → Json
  | none => .null
  | some v => v.toJson

def Val.toJsonThread : Coroutine Val → Json
  | ⟨frames, env, control, delivered, status, guarded⟩ =>
    .obj [
      ("frames", .arr (frames.reverse.map Frame.toJson)),
      ("env", .arr (Val.toJsonBindings env).reverse),
      ("control", Val.toJsonControl control),
      ("resume_value", Val.toJsonOption delivered),
      ("status", .str status.tag),
      ("protected", .bool guarded)]

end

/-- The stored form of a coroutine. -/
def Coroutine.toJson (co : Thread) : Json :=
  Val.toJsonThread co

/-- The text under which a value is stored. -/
def Val.store (v : Val) : String :=
  v.toJson.text

/-! ## Reading -/

def TryPhase.ofTag? : String → Option TryPhase
  | "Start" => some .start
  | "ExecuteTry" => some .body
  | "ExecuteCatch" => some .handler
  | _ => none

def Status.ofTag? : String → Option Status
  | "Fresh" => some .fresh
  | "Suspended" => some .suspended
  | "Running" => some .running
  | "Dead" => some .dead
  | _ => none

/-- The kinds of frames, in the order of their numbers. -/
def FrameKind.kinds : List String := [
  "Block", "Declare", "Assign", "If", "While", "Return", "Try", "Expr", "Break", "Continue"]

/-- Reads the kind of a frame from a copy of its fields. -/
def FrameKind.ofFields? (fields : Fields) : Option FrameKind := do
  let (kind, fields) ← fields.tagged? "t" (kind? .afterwards FrameKind.kinds)
  match kind with
  | "Block" => match ← fields.collect? ["idx"] with
    | [next] => return .block (← required? asNat? next)
    | _ => none
  | "Declare" => return .declare
  | "Assign" => return .assign
  | "If" => return .branch
  | "While" => match ← fields.collect? ["phase"] with
    | [phase] =>
      guard ((← required? (name? .afterwards) phase) = "Test")
      return .loop
    | _ => none
  | "Return" => return .return
  | "Try" => match ← fields.collect? ["phase"] with
    | [phase] => return .attempt (← TryPhase.ofTag? (← required? (name? .afterwards) phase))
    | _ => none
  | "Expr" => return .expr
  | "Break" => return .break
  | "Continue" => return .continue
  | _ => none

/-- Reads a frame, which is stored as an object only.  Its fields are copied but for the base and
the node. -/
def Frame.ofJson? (depth : Nat) (p : Pace) : Json → Option Frame
  | .obj members => do
    match ← (Fields.named members).collect? ["scope_base_sp", "node"] with
    | [base, node] =>
      let base ← required? asNat? base
      let node ← required? (Stmt.ofWhole? p depth) node
      let copied := members.filter fun m => m.1 ≠ "scope_base_sp" ∧ m.1 ≠ "node"
      guard (copied.all (·.2.isUsable))
      return ⟨← FrameKind.ofFields? (.named copied), base, node⟩
    | _ => none
  | _ => none

/-- What is stored beside a kind, and how it is met. -/
abbrev Content := Option (Pace × Json)

/-- Reads what is stored beside a kind, given how to read a value that is met in one way. -/
def ofContent? {α : Type} (decode : Pace → Json → Option α) : Content → Option α
  | some (p, j) => decode p j
  | none => none

/-- Reads nothing beside a kind. -/
def noContent? : Content → Option Unit
  | none | some (_, .null) => some ()
  | some _ => none

/-- The kind and content of a stored value.  Content that stands before the kind is copied until the
kind is known, and all of it must be usable. -/
def tagged? (p : Pace) : Json → Option (String × Content)
  | .obj members => do
    let kind ← required? (name? p) (← Fields.one? members "t")
    match ← Fields.one? members "v" with
    | none => return (kind, none)
    | some content =>
      if (members.find? fun m => m.1 = "t" ∨ m.1 = "v").any (·.1 = "v") then
        guard content.isUsable
        return (kind, some (.afterwards, content))
      else return (kind, some (p, content))
  | .arr [kind, content] => (name? p kind).map fun kind => (kind, some (p, content))
  | _ => none

/-- Reads a variable. -/
def binding? (decode : Json → Option Val) (j : Json) : Option (String × Val) := do
  match ← (← Fields.of? j).collect? ["name", "value"] with
  | [x, v] => return (← required? asStr? x, ← required? decode v)
  | _ => none

/-- Reads the pending control of a coroutine. -/
def control? (decode : Pace → Json → Option Val) (p : Pace) (j : Json) : Option (Control Val) := do
  match ← tagged? p j with
  | ("None", v) => (noContent? v).map fun _ => .none
  | ("Break", v) => (noContent? v).map fun _ => .break
  | ("Continue", v) => (noContent? v).map fun _ => .continue
  | ("Return", v) => return .return (← ofContent? decode v)
  | ("Throw", v) => return .throw (← ofContent? decode v)
  | ("Suspend", v) => return .suspend (← ofContent? decode v)
  | _ => none

/-- Reads a coroutine, given how to read the values in it. -/
def Coroutine.ofJsonWith? (depth : Nat) (decode : Pace → Json → Option Val) (p : Pace) (j : Json) :
    Option Thread := do
  let fields ← Fields.of? j
  match ← fields.collect? ["frames", "env", "control", "resume_value", "status", "protected"] with
  | [frames, env, control, delivered, status, guarded] =>
    let frames ← required? (list? (Frame.ofJson? depth p)) frames
    let env ← required? (list? (binding? (decode p))) env
    return {
      frames := frames.reverse
      env := env.reverse
      control := ← required? (control? decode p) control
      delivered := ← optional? (decode p) delivered
      status := ← Status.ofTag? (← required? (name? p) status)
      guarded := ← required? asBool? guarded }
  | _ => none

/-- Reads a native. -/
def native? (p : Pace) (j : Json) : Option Native :=
  (name? p j).bind Native.ofTag?

/-- Reads a native with its leading arguments. -/
def bound? (decode : Pace → Json → Option Val) (p : Pace) (j : Json) : Option Val := do
  match ← (← Fields.of? j).collect? ["native", "args"] with
  | [n, args] =>
    return .bound (← required? (native? p) n) (← required? (list? (decode p)) args)
  | _ => none

/-- Reads an error value. -/
def error? (j : Json) : Option Val := do
  match ← (← Fields.of? j).collect? ["code", "message"] with
  | [code, message] =>
    return .error (← required? asStr? code) (← required? asStr? message)
  | _ => none

/-- Reads the entries of an object; of two values for one key the later counts. -/
def entries? (decode : Json → Option Val) : Json → Option (Entries Val)
  | .obj members =>
    (members.mapM fun (m : String × Json) => (decode m.2).map fun v => (m.1, v)).map
      Entries.ofList
  | _ => none

/-- Reads a value of at most the given depth. -/
def Val.ofJson? : Nat → Pace → Json → Option Val
  | 0, _, _ => none
  | n + 1, p, j => do
    let (kind, content) ← VirtualComputer.tagged? p j
    match kind with
    | "Null" => (noContent? content).map fun _ => .null
    | "Bool" => return .bool (← ofContent? (fun _ => asBool?) content)
    | "Num" => return .num (← ofContent? (fun _ => asFloat?) content)
    | "Str" => return .str (← ofContent? (fun _ => asStr?) content)
    | "List" => return .list (← ofContent? (fun p => list? (ofJson? n p)) content)
    | "Obj" => return .obj (← ofContent? (fun p => entries? (ofJson? n p)) content)
    | "Native" => return .native (← ofContent? native? content)
    | "Bound" => ofContent? (bound? (ofJson? n)) content
    | "Thread" => return .thread (← ofContent? (Coroutine.ofJsonWith? n (ofJson? n)) content)
    | "Error" => ofContent? (fun _ => error?) content
    | _ => none

/-- Reads a value from its stored text. -/
def Val.load? (text : String) : Option Val :=
  (Json.read? text).bind (Val.ofJson? nestingLimit .passing)

/-- Reads a coroutine from its stored text. -/
def Coroutine.load? (text : String) : Option Thread :=
  (Json.read? text).bind
    (Coroutine.ofJsonWith? nestingLimit (Val.ofJson? nestingLimit) .passing)

/-- Reads a statement from its stored text. -/
def Stmt.load? (text : String) : Option Stmt :=
  (Json.read? text).bind (Stmt.ofWhole? .passing nestingLimit)

/-- The text under which a statement is stored. -/
def Stmt.store (s : Stmt) : String :=
  s.toJson.text

end VirtualComputer
