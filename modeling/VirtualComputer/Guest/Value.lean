import VirtualComputer.Entries
import VirtualComputer.Guest.Native
import VirtualComputer.Guest.Scalar
import VirtualComputer.Syntax.Equality

/-!
# Guest values

The values of guest programs.  A thread is a coroutine as a value: its frames, its variables and
what it is about to do.  Values are compared by content, and measured in bytes by `footprint`,
which depends on nothing but the value.
-/

namespace VirtualComputer

/-! ## Coroutines -/

/-- How far a `try` statement has come. -/
inductive TryPhase where
  | start
  | body
  | handler
  deriving DecidableEq, Repr

/-- The name of a phase in stored frames and in messages. -/
def TryPhase.tag : TryPhase → String
  | .start => "Start"
  | .body => "ExecuteTry"
  | .handler => "ExecuteCatch"

/-- The kind of statement a frame executes, and how far it has come. -/
inductive FrameKind where
  /-- A block whose statements before `next` have been started. -/
  | block (next : Nat)
  | declare
  | assign
  | branch
  | loop
  | return
  | attempt (phase : TryPhase)
  | expr
  | break
  | continue
  deriving DecidableEq, Repr

/-- A statement being executed; `base` is the number of variables there were before it. -/
structure Frame where
  kind : FrameKind
  base : Nat
  node : Stmt

/-- What a coroutine is about to do other than go on with its topmost frame. -/
inductive Control (V : Type) where
  | none
  | break
  | continue
  | return (value : V)
  | throw (error : V)
  | suspend (value : V)

inductive Status where
  | fresh
  | suspended
  | running
  | dead
  deriving DecidableEq, Repr

/-- A coroutine over a type of values.  Frames are listed from the topmost down, variables from
the innermost outwards. -/
structure Coroutine (V : Type) where
  frames : List Frame
  env : List (String × V)
  control : Control V
  /-- What the pending `yield` stands for, once it has been delivered. -/
  delivered : Option V
  status : Status
  /-- Whether an error that escapes is reported as a failed result. -/
  guarded : Bool

/-! ## Values -/

inductive Val where
  | null
  | bool (b : Bool)
  | num (x : Float)
  | str (s : String)
  | list (items : List Val)
  | obj (entries : List (String × Val))
  | native (n : Native)
  /-- A native with its leading arguments. -/
  | bound (n : Native) (args : List Val)
  | thread (co : Coroutine Val)
  | error (code message : String)
  deriving Inhabited

/-- A coroutine of the guest. -/
abbrev Thread := Coroutine Val

/-- The kinds of value that guests can tell apart. -/
inductive Kind where
  | null
  | boolean
  | number
  | string
  | list
  | object
  | function
  | thread
  | error
  deriving DecidableEq, Repr

/-- The name of a kind. -/
def Kind.name : Kind → String
  | .null => "null"
  | .boolean => "boolean"
  | .number => "number"
  | .string => "string"
  | .list => "list"
  | .object => "object"
  | .function => "function"
  | .thread => "thread"
  | .error => "error"

namespace Val

/-- The kind of a value. -/
def kind : Val → Kind
  | .null => .null
  | .bool _ => .boolean
  | .num _ => .number
  | .str _ => .string
  | .list _ => .list
  | .obj _ => .object
  | .native _ | .bound _ _ => .function
  | .thread _ => .thread
  | .error _ _ => .error

/-- Everything but `null` and `false` counts as true. -/
def truthy : Val → Bool
  | .bool b => b
  | .null => false
  | _ => true

def isCallable : Val → Bool
  | .native _ | .bound _ _ => true
  | _ => false

/-- The native and leading arguments of a callable. -/
def callable? : Val → Option (Native × List Val)
  | .native n => some (n, [])
  | .bound n args => some (n, args)
  | _ => none

/-! ## The boundary -/

/-- The value of a scalar. -/
def ofScalar : Scalar → Val
  | .nothing => .null
  | .bool b => .bool b
  | .number x => .num x
  | .str s => .str s

/-- The scalar of a value that may cross the boundary; otherwise its kind. -/
def toScalar : Val → Except Kind Scalar
  | .null => .ok .nothing
  | .bool b => .ok (.bool b)
  | .num x => .ok (.number x)
  | .str s => .ok (.str s)
  | v => .error v.kind

/-! ## Display -/

/-- Whether a number is finite and has no fraction. -/
def isWhole (x : Float) : Bool :=
  x.isFinite && x.floor == x

/-- The text of a number: whole ones below `10 ^ 15` are written as integers. -/
def showNumber (x : Float) : String :=
  if isWhole x && x.abs < 1e15 then Decimal.integerText x.toInt64.toInt
  else Decimal.shown x

mutual

/-- The text of a value, as printed. -/
def shown : Val → String
  | .null => "null"
  | .bool b => if b then "true" else "false"
  | .num x => showNumber x
  | .str s => s
  | .list items => "[" ++ ", ".intercalate (shownItems items) ++ "]"
  | .obj entries => "\x7b" ++ ", ".intercalate (shownEntries entries) ++ "\x7d"
  | .native n => "function: " ++ n.name
  | .bound n _ => "function: " ++ n.name ++ " (bound)"
  | .thread _ => "thread"
  | .error _ message => message

def shownItems : List Val → List String
  | [] => []
  | v :: vs => shown v :: shownItems vs

def shownEntries : List (String × Val) → List String
  | [] => []
  | (k, v) :: es => (k ++ ": " ++ shown v) :: shownEntries es

end

end Val

/-! ## Memory -/

/-- The bytes that parts of values take. -/
structure Costs where
  scalar : Nat
  string : Nat
  list : Nat
  object : Nat
  entry : Nat
  coroutine : Nat
  frame : Nat
  binding : Nat

/-- The costs by which memory is accounted. -/
def costs : Costs where
  scalar := 16
  string := 24
  list := 32
  object := 48
  entry := 24
  coroutine := 128
  frame := 64
  binding := 24

mutual

/-- The bytes that a value takes. -/
def Val.footprint : Val → Nat
  | .null | .bool _ | .num _ | .native _ => costs.scalar
  | .str s => costs.string + s.utf8ByteSize
  | .list items => costs.list + Val.footprintItems items
  | .obj entries => costs.object + Val.footprintEntries entries
  | .bound _ args => costs.list + Val.footprintItems args
  | .thread co => Val.footprintThread co
  | .error code message => costs.list + code.utf8ByteSize + message.utf8ByteSize

def Val.footprintItems : List Val → Nat
  | [] => 0
  | v :: vs => v.footprint + Val.footprintItems vs

/-- The bytes of named values; entries of objects and variables cost the same. -/
def Val.footprintEntries : List (String × Val) → Nat
  | [] => 0
  | (k, v) :: es => costs.entry + k.utf8ByteSize + v.footprint + Val.footprintEntries es

def Val.footprintControl : Control Val → Nat
  | .return v | .throw v | .suspend v => v.footprint
  | .none | .break | .continue => 0

def Val.footprintOption : Option Val → Nat
  | none => 0
  | some v => v.footprint

def Val.footprintThread : Coroutine Val → Nat
  | ⟨frames, env, control, delivered, _, _⟩ =>
    costs.coroutine + frames.length * costs.frame + Val.footprintEntries env +
      Val.footprintOption delivered + Val.footprintControl control

end

/-- The bytes that a coroutine takes. -/
def Coroutine.footprint (co : Thread) : Nat :=
  Val.footprintThread co

/-- The bytes that a table of values takes. -/
def tableFootprint (table : Entries Val) : Nat :=
  costs.object + Val.footprintEntries table

/-! ## Equality -/

/-- Whether two frames are equal, positions in their statements included. -/
def Frame.equal (f g : Frame) : Bool :=
  f.kind == g.kind && f.base == g.base && f.node == g.node

instance : BEq Frame := ⟨Frame.equal⟩

mutual

/-- Whether two values are equal; the undefined number differs from itself. -/
def Val.equal : Val → Val → Bool
  | .null, .null => true
  | .bool a, .bool b => a == b
  | .num x, .num y => x == y
  | .str s, .str t => s == t
  | .list vs, .list ws => Val.equalItems vs ws
  | .obj es, .obj fs => Val.equalEntries es fs
  | .native m, .native n => m == n
  | .bound m vs, .bound n ws => m == n && Val.equalItems vs ws
  | .thread a, .thread b => Val.equalThread a b
  | .error c m, .error d n => c == d && m == n
  | _, _ => false

def Val.equalItems : List Val → List Val → Bool
  | [], [] => true
  | v :: vs, w :: ws => v.equal w && Val.equalItems vs ws
  | _, _ => false

def Val.equalEntries : List (String × Val) → List (String × Val) → Bool
  | [], [] => true
  | (k, v) :: es, (l, w) :: fs => k == l && v.equal w && Val.equalEntries es fs
  | _, _ => false

def Val.equalControl : Control Val → Control Val → Bool
  | .none, .none | .break, .break | .continue, .continue => true
  | .return v, .return w | .throw v, .throw w | .suspend v, .suspend w => v.equal w
  | _, _ => false

def Val.equalOption : Option Val → Option Val → Bool
  | none, none => true
  | some v, some w => v.equal w
  | _, _ => false

def Val.equalThread : Coroutine Val → Coroutine Val → Bool
  | ⟨fs, env, control, delivered, status, guarded⟩,
    ⟨gs, env', control', delivered', status', guarded'⟩ =>
    fs == gs && Val.equalEntries env env' && Val.equalControl control control' &&
      Val.equalOption delivered delivered' && status == status' && guarded == guarded'

end

instance : BEq Val := ⟨Val.equal⟩

end VirtualComputer
