import VirtualComputer.Json.Basic

/-!
# Fields of records

A record is read from an object, where its fields stand under their names in any order, or from
a list that gives all of them in order.  In an object unknown names are ignored, but a repeated
field is refused.  Tagged records carry the name of their kind as well: as one more member of the
object, or as the first item of the list.  Some spellings are taken only from a copy of the value.
-/

namespace VirtualComputer.Json

/-- Where the fields of a record are found. -/
inductive Fields where
  | named (members : List (String × Json))
  | listed (items : List Json)

namespace Fields

/-- The fields of a value that may be a record. -/
def of? : Json → Option Fields
  | .obj members => some (.named members)
  | .arr items => some (.listed items)
  | _ => none

/-- All values under a name, in order. -/
def valuesOf (members : List (String × Json)) (name : String) : List Json :=
  (members.filter (·.1 = name)).map (·.2)

/-- The value under a name, `none` if there is none; more than one is refused. -/
def one? (members : List (String × Json)) (name : String) : Option (Option Json) :=
  match valuesOf members name with
  | [] => some none
  | [j] => some (some j)
  | _ => none

/-- The values of the named fields in the order asked for.  A list must have one item for each. -/
def collect? (names : List String) : Fields → Option (List (Option Json))
  | .named members => names.mapM (one? members)
  | .listed items => if items.length = names.length then some (items.map some) else none

/-- The values of the named fields, of which a list must have the first and may leave out others
at its end. -/
def collectFirst? (names : List String) : Fields → Option (List (Option Json))
  | .named members => names.mapM (one? members)
  | .listed items =>
    if 0 < items.length ∧ items.length ≤ names.length then
      some (items.map some ++ List.replicate (names.length - items.length) none)
    else none

/-- The kind of a tagged record and its other fields. -/
def tagged? (tag : String) (kind? : Json → Option String) : Fields → Option (String × Fields)
  | .named members =>
    match one? members tag with
    | some (some j) => (kind? j).map fun kind => (kind, .named (members.filter (·.1 ≠ tag)))
    | _ => none
  | .listed (j :: items) => (kind? j).map fun kind => (kind, .listed items)
  | .listed [] => none

end Fields

/-- How a value is met: while its text goes by, or afterwards, in a copy that has been made of it. -/
inductive Pace where
  | passing
  | afterwards
  deriving DecidableEq, Repr

/-- The name of a kind out of several.  Afterwards its number among them will do as well. -/
def kind? (p : Pace) (kinds : List String) : Json → Option String
  | .str s => some s
  | .int i => if p = .afterwards ∧ 0 ≤ i then kinds[i.toNat]? else none
  | _ => none

/-- One name out of several: the name itself, or an object with the name as its one key, and
nothing under it.  Afterwards an empty object is nothing, too. -/
def name? (p : Pace) : Json → Option String
  | .str s => some s
  | .obj [(s, .null)] => some s
  | .obj [(s, .obj [])] => if p = .afterwards then some s else none
  | _ => none

/-- A field that must be present. -/
def required? {α : Type} (decode : Json → Option α) : Option Json → Option α
  | some j => decode j
  | none => none

/-- A field that may be absent or null. -/
def optional? {α : Type} (decode : Json → Option α) : Option Json → Option (Option α)
  | none => some none
  | some .null => some none
  | some j => (decode j).map some

/-- A list of which every item is read alike. -/
def list? {α : Type} (decode : Json → Option α) (j : Json) : Option (List α) :=
  j.asArr?.bind fun items => items.mapM decode

end VirtualComputer.Json
