import VirtualComputer.Decimal.Shortest
import VirtualComputer.Json.Fields

/-!
# Scalars and signals

Only scalars cross the boundary between a guest and the world around it: as arguments of signals,
of network messages and of calls of other components.
-/

namespace VirtualComputer

inductive Scalar where
  | nothing
  | bool (b : Bool)
  | number (x : Float)
  | str (s : String)
  deriving Inhabited

namespace Scalar

/-- Whether two scalars are equal; the undefined number differs from itself. -/
def equal : Scalar → Scalar → Bool
  | .nothing, .nothing => true
  | .bool a, .bool b => a == b
  | .number x, .number y => x == y
  | .str s, .str t => s == t
  | _, _ => false

instance : BEq Scalar := ⟨equal⟩

/-- Whether a scalar is the absent value. -/
def isNothing : Scalar → Bool
  | .nothing => true
  | _ => false

/-- The text of a scalar. -/
def shown : Scalar → String
  | .nothing => "nil"
  | .bool b => if b then "true" else "false"
  | .number x => Decimal.shown x
  | .str s => s

def asStr? : Scalar → Option String
  | .str s => some s
  | _ => none

def asNumber? : Scalar → Option Float
  | .number x => some x
  | _ => none

/-- The stored form of a scalar. -/
def toJson : Scalar → Json
  | .nothing => .null
  | .bool b => .bool b
  | .number x => .float x
  | .str s => .str s

/-- The scalar of a stored value that is not a list or an object. -/
def ofJson? : Json → Option Scalar
  | .null => some .nothing
  | .bool b => some (.bool b)
  | .int i => some (.number (Decimal.ofInt i))
  | .float x => some (.number x)
  | .str s => some (.str s)
  | _ => none

end Scalar

/-- An event for the guest: a name and arguments. -/
structure Signal where
  name : String
  args : List Scalar
  deriving Inhabited

/-- The plain stored form of a signal. -/
def Signal.toJson (s : Signal) : Json :=
  .obj [("name", .str s.name), ("args", .arr (s.args.map Scalar.toJson))]

end VirtualComputer
