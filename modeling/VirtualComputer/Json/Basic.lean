import VirtualComputer.Decimal.Binary
import VirtualComputer.Entries
import VirtualComputer.Word

/-!
# Data texts

The values that stored texts denote.  Members of an object keep their order and repetitions, so
that a reader of records can refuse a repeated field.  Whole numbers that fit 64 bits are kept
apart from floating ones, since counts and codes accept only the former.
-/

namespace VirtualComputer

inductive Json where
  | null
  | bool (b : Bool)
  | int (i : Int)
  | float (x : Float)
  | str (s : String)
  | arr (items : List Json)
  | obj (members : List (String × Json))
  /-- A value that a text may hold where nobody asks for it: a number beyond the doubles, a string or
  key with half of a surrogate pair, or a list or object that is nested too deeply. -/
  | unusable
  deriving Inhabited

namespace Json

/-- The deepest nesting of lists and objects that can be used. -/
def nestingLimit : Nat := 127

/-- The whole numbers kept apart from floating ones: those of a signed or unsigned 64-bit word. -/
def isWord (i : Int) : Bool :=
  Word.signed64.holds i || Word.unsigned64.holds i

/-- A natural number, which every count and length is. -/
def nat (n : Nat) : Json :=
  .int n

/-- An optional value, absence being null. -/
def ofOption {α : Type} (f : α → Json) : Option α → Json
  | none => .null
  | some a => f a

/-! ## Views -/

def asStr? : Json → Option String
  | .str s => some s
  | _ => none

def asBool? : Json → Option Bool
  | .bool b => some b
  | _ => none

/-- A whole number of a width. -/
def asInt? (w : Word) : Json → Option Int
  | .int i => if w.holds i then some i else none
  | _ => none

/-- A count of at most 64 bits. -/
def asNat? (j : Json) : Option Nat :=
  (j.asInt? .unsigned64).map Int.toNat

/-- A floating number; whole numbers are taken to the nearest one. -/
def asFloat? : Json → Option Float
  | .float x => some x
  | .int i => some (Decimal.ofInt i)
  | _ => none

def asArr? : Json → Option (List Json)
  | .arr items => some items
  | _ => none

/-! ## Use -/

mutual

/-- Whether nothing in a value is unusable. -/
def isUsable : Json → Bool
  | .unusable => false
  | .arr items => areUsable items
  | .obj members => haveUsable members
  | _ => true

def areUsable : List Json → Bool
  | [] => true
  | j :: rest => isUsable j && areUsable rest

def haveUsable : List (String × Json) → Bool
  | [] => true
  | (_, j) :: rest => isUsable j && haveUsable rest

end

/-! ## Order -/

mutual

/-- The value with the members of all objects in order of their keys; of two members with one key
the later counts. -/
def sorted : Json → Json
  | .arr items => .arr (sortedItems items)
  | .obj members => .obj (Entries.ofList (sortedMembers members))
  | j => j

def sortedItems : List Json → List Json
  | [] => []
  | j :: rest => sorted j :: sortedItems rest

def sortedMembers : List (String × Json) → List (String × Json)
  | [] => []
  | (k, j) :: rest => (k, sorted j) :: sortedMembers rest

end

end Json

end VirtualComputer
