import VirtualComputer.Decimal.Numeral
import VirtualComputer.Settings.Value
import VirtualComputer.Word

/-!
# Paths to settings

A key of a source is a path where it can be one: a name, followed by names after points and by
numbers in brackets, which choose items of lists.  `Setting.putAt` puts a value at the end of a
path, and makes the tables and lists that are missing on the way.
-/

namespace VirtualComputer

/-- A step of a path into settings. -/
inductive SettingStep where
  | name (name : String)
  /-- An item of a list, counted from the end if the number is negative. -/
  | item (i : Int)
  deriving DecidableEq, Repr

namespace SettingStep

/-- Whether a character may stand in a name of a path. -/
def isNameChar (c : Char) : Bool :=
  c.isAlphanum || c = ' ' || c = '_' || c = '-'

/-- A name at the start of a text, and the rest. -/
def name? (cs : List Char) : Option (SettingStep × List Char) :=
  let name := cs.takeWhile isNameChar
  if name.isEmpty then none else some (.name (String.ofList name), cs.dropWhile isNameChar)

/-- Whether a character is a blank around a number in brackets. -/
def isBlank (c : Char) : Bool :=
  c = ' ' || c = '\t'

/-- A number and a closing bracket at the start of a text, and the rest. -/
def item? (cs : List Char) : Option (SettingStep × List Char) := do
  let cs := cs.dropWhile isBlank
  let (negative, cs) := match cs with
    | '-' :: cs => (true, cs)
    | cs => (false, cs)
  let digits := cs.takeWhile Char.isDigit
  guard (!digits.isEmpty)
  let n : Int := Decimal.ofDigits digits
  let i := if negative then -n else n
  guard (Word.signed64.holds i)
  match (cs.dropWhile Char.isDigit).dropWhile isBlank with
  | ']' :: rest => return (.item i, rest)
  | _ => none

/-- The steps after the first one, of which there are at most so many. -/
def following? : Nat → List Char → Option (List SettingStep)
  | _, [] => some []
  | 0, _ => none
  | n + 1, c :: cs => do
    let (step, rest) ← if c = '.' then name? cs else if c = '[' then item? cs else none
    return step :: (← following? n rest)

/-- The path that a key is, if it is one. -/
def path? (key : String) : Option (List SettingStep) := do
  let (step, rest) ← name? key.toList
  return step :: (← following? rest.length rest)

end SettingStep

namespace Setting

/-- The place of an item in a list of a length. -/
def place (length : Nat) (i : Int) : Nat :=
  if 0 ≤ i then i.toNat else length - i.natAbs

/-- A list with an item changed; it is filled up with nothing as far as is necessary. -/
def changeItem (i : Int) (f : Setting → Setting) (items : List Setting) : List Setting :=
  let k := place items.length i
  (items ++ List.replicate (k + 1 - items.length) Setting.nothing).modify k f

/-- Changes the value at a path.  What is no table or list gives way to one. -/
def changeAt (f : Setting → Setting) : List SettingStep → Setting → Setting
  | [], v => f v
  | .name n :: path, v =>
    let old := (Entries.get? (lower n) v.entries).getD .nothing
    .table (Entries.insert (lower n) (changeAt f path old) v.entries)
  | .item i :: path, v => .list (changeItem i (changeAt f path) v.items)

/-- Puts a value at a path. -/
def putAt (path : List SettingStep) (v root : Setting) : Setting :=
  match path.getLast? with
  | some (.name n) => changeAt (put n v) path.dropLast root
  | some (.item i) => changeAt (fun list => .list (changeItem i (fun _ => v) list.items)) path.dropLast root
  | none => root

/-- Puts a value under a key of a source. -/
def putKey (key : String) (v root : Setting) : Setting :=
  match SettingStep.path? key with
  | some path => putAt path v root
  | none => put key v root

/-- Lays the entries of a source over settings. -/
def lay (source : List (String × Setting)) (root : Setting) : Setting :=
  source.foldl (fun root (k, v) => putKey k v root) root

end Setting

end VirtualComputer
