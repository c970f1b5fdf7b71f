import VirtualComputer.Decimal.Numeral
import VirtualComputer.Settings.Value
import VirtualComputer.Word
import VirtualComputer.Yaml.Node

/-!
# YAML texts

A text denotes raw settings: quoted texts are strings, and plain ones are what they look like.
-/

namespace VirtualComputer.Yaml

/-! ## Plain texts -/

/-- The number that digits in a base denote, which may have a sign. -/
def based? (base : Nat) (cs : List Char) : Option Int := do
  let (sign, digits) := Decimal.Numeral.takeSign cs
  let values ← digits.mapM Json.Lexer.hexValue?
  guard (!values.isEmpty && values.all (· < base))
  let n := values.foldl (fun n d => base * n + d) 0
  let i : Int := if sign = some true then -n else n
  if Word.signed64.holds i then some i else none

/-- The whole number that a text denotes. -/
def integer? : List Char → Option Int
  | '0' :: 'x' :: cs => based? 16 cs
  | '0' :: 'o' :: cs => based? 8 cs
  | '+' :: cs => based? 10 cs
  | cs => based? 10 cs

/-- The texts of infinities and of the undefined number.  They are recognised, but no setting can be
one. -/
def infinities : List String := [
  ".inf", ".Inf", ".INF", "+.inf", "+.Inf", "+.INF", "-.inf", "-.Inf", "-.INF", ".nan", ".NaN",
  ".NAN"]

/-- The floating number that a text denotes. -/
def float? (text : String) : Option Float :=
  if text.toList.any Char.isDigit then Decimal.float? text else none

/-- The setting that a plain text denotes. -/
def plainValue? (text : String) : Option Setting :=
  if text = "" ∨ text = "~" ∨ text = "null" then some .nothing
  else if text = "true" then some (.bool true)
  else if text = "false" then some (.bool false)
  else match integer? text.toList, float? text with
    | some i, _ => some (.int i)
    | none, some x => some (.float x)
    | none, none => if infinities.contains text then none else some (.str text)

/-! ## Nodes -/

/-- The setting that a node denotes.  A node has none if its text is not of the type that its tag
tells, or if it refers to a node that it is a part of. -/
abbrev Meaning := Option Setting

/-- The meaning of a plain text with a standard tag. -/
def taggedValue? (tag text : String) : Option Meaning :=
  match tag with
  | "bool" => some (if text = "true" then some (.bool true) else if text = "false" then
      some (.bool false) else none)
  | "int" => some ((based? 10 text.toList).map .int)
  | "float" => if infinities.contains text then none else some ((float? text).map .float)
  | "null" => some (if text = "~" ∨ text = "null" then some .nothing else none)
  | _ => some (some (.str text))

/-- The nodes that have names. -/
structure Names where
  /-- The number of the node that a name stands for; the latest comes first. -/
  numbers : List (String × Nat)
  /-- The meanings of the nodes that have been read. -/
  meanings : List (Nat × Meaning)

/-- Gives a name to the next node, and tells its number. -/
def Names.give (name : String) (ns : Names) : Nat × Names :=
  (ns.numbers.length, { ns with numbers := (name, ns.numbers.length) :: ns.numbers })

/-- The meaning of the node that a name stands for, if there is one. -/
def Names.meaning? (name : String) (ns : Names) : Option Meaning :=
  (ns.numbers.lookup name).map fun i => (ns.meanings.lookup i).getD none

/-- The pairs of a mapping from its keys and values in turn.  A key without a meaning counts for
nothing. -/
def pairs : List Meaning → List (Setting × Setting)
  | none :: rest => pairs rest
  | some k :: v :: rest => (k, v.getD .nothing) :: pairs rest
  | _ => []

/-- The text of a key, and whether it is a number; other things cannot be keys. -/
def keyText? : Setting → Option (Bool × String)
  | .str s => some (false, s)
  | .int i => some (true, Decimal.integerText i)
  | _ => none

/-- The table of some pairs, in which no key may stand twice. -/
def table? (ps : List (Setting × Setting)) : Option Setting := do
  let keys ← ps.mapM fun p => keyText? p.1
  if keys.Nodup then
    return .table (Entries.ofList ((keys.map (·.2)).zip (ps.map (·.2))))
  else none

mutual

/-- The meaning of a node. -/
def Node.meaning : Node → StateT Names Option Meaning
  | .plain tag text => match tag with
    | none => (plainValue? text).map some
    | some (.standard name) => taggedValue? name text
    | some .other => return some (.str text)
  | .quoted text => return some (.str text)
  | .list items => return some (.list ((← Node.meanings items).map (·.getD .nothing)))
  | .mapping parts => do return some (← table? (pairs (← Node.meanings parts)))
  | .named name node => do
    let i ← modifyGet (Names.give name)
    let m ← node.meaning
    modify fun ns => { ns with meanings := (i, m) :: ns.meanings }
    return m
  | .reference name => do (← get).meaning? name

/-- The meanings of nodes. -/
def Node.meanings : List Node → StateT Names Option (List Meaning)
  | [] => return []
  | node :: rest => return (← node.meaning) :: (← Node.meanings rest)

end

/-- The setting that a text denotes; a text without a document denotes an empty table. -/
def read? (text : String) : Option Setting := do
  match ← Node.ofTokens? (← tokens? text) with
  | none => return .table []
  | some node => return (← node.meaning.run ⟨[], []⟩).1.getD .nothing

end VirtualComputer.Yaml
