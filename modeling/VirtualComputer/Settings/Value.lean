import VirtualComputer.Entries

/-!
# Raw settings

What sources give as settings before anything is known about what is expected: scalars, lists and
tables.  Sources are laid over each other by `Setting.put`, which merges tables and replaces
everything else.  Names are kept in lower case.
-/

namespace VirtualComputer

inductive Setting where
  | nothing
  | bool (b : Bool)
  | int (i : Int)
  | float (x : Float)
  | str (s : String)
  | list (items : List Setting)
  | table (entries : List (String × Setting))
  deriving Inhabited

namespace Setting

/-- The entries of a table; anything else has none. -/
def entries : Setting → Entries Setting
  | .table es => es
  | _ => []

/-- The items of a list; anything else has none. -/
def items : Setting → List Setting
  | .list vs => vs
  | _ => []

/-- The lower case of a character, for the characters of which it is a Latin letter. -/
def lowerChar (c : Char) : Char :=
  if c = '\u212A' then 'k' else c.toLower

/-- The lower case of a name. -/
def lower (name : String) : String :=
  name.map lowerChar

mutual

/-- Puts a value into a table under a name.  If it is a table itself, then its entries are put into
the one that is there; an empty one leaves anything as it is. -/
def put (name : String) : Setting → Setting → Setting
  | .table new, root =>
    let es := root.entries
    let old := (Entries.get? (lower name) es).getD (.table [])
    .table (Entries.insert (lower name) (putAll new old) es)
  | v, root => .table (Entries.insert (lower name) v root.entries)

/-- Puts entries into a table, one after the other. -/
def putAll : List (String × Setting) → Setting → Setting
  | [], root => root
  | (k, v) :: rest, root => putAll rest (put k v root)

end

end Setting

end VirtualComputer
