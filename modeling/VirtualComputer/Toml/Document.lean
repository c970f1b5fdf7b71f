import VirtualComputer.Toml.Lexeme

/-!
# Documents of TOML texts

A document is a list of entries and of headers that name the table to which the entries after them
belong.  A table may be named by one header only, and dotted keys may add only to tables that were
made by dotted keys, so that every table is defined in one place.
-/

namespace VirtualComputer.Toml

/-! ## Tables under construction -/

/-- What has made a table. -/
inductive Origin where
  | header
  /-- A header of a table inside it. -/
  | implied
  | dotted
  deriving DecidableEq, Repr

inductive Node where
  | value (v : Toml)
  | table (origin : Origin) (entries : List (String × Node))
  /-- Tables under one repeated header, the last one first. -/
  | tables (items : List (List (String × Node)))

/-- Changes a table. -/
abbrev Edit := Origin → Entries Node → Option (Origin × Entries Node)

/-- Puts an edited table back under its key. -/
def Node.put (k : String) (o : Origin) (es : Entries Node) (f : Origin → Entries Node → Node)
    (r : Option (Origin × Entries Node)) : Option (Origin × Entries Node) :=
  r.map fun (o', es') => (o, Entries.insert k (f o' es') es)

/-- Edits the table at a path, making tables that are missing; `dotted` says whether the path is
that of a dotted key. -/
def editAt (dotted : Bool) (edit : Edit) : List String → Edit
  | [], o, es => edit o es
  | k :: path, o, es =>
    match Entries.get? k es with
    | none =>
      Node.put k o es .table (editAt dotted edit path (if dotted then .dotted else .implied) [])
    | some (.table o' es') =>
      if dotted && o' = .header then none
      else Node.put k o es .table (editAt dotted edit path o' es')
    | some (.tables (last :: items)) =>
      Node.put k o es (fun _ es' => .tables (es' :: items)) (editAt dotted edit path .header last)
    | some _ => none

/-- Adds an entry under a key that must be free. -/
def addValue (k : String) (v : Toml) : Edit := fun o es =>
  match Entries.get? k es with
  | none => some (o, Entries.insert k (.value v) es)
  | some _ => none

/-- Adds an entry under a dotted key.  Its tables must be made by dotted keys alone. -/
def addEntry (key : List String) (v : Toml) : Edit := fun o es =>
  let path := key.dropLast
  let add : Edit := fun o es =>
    if o = .dotted ↔ path.isEmpty then none else addValue (key.getLast?.getD "") v o es
  editAt true add path o es

/-- Opens the table of a header. -/
def openTable (key : List String) : Edit :=
  let k := key.getLast?.getD ""
  let start : Edit := fun o es =>
    match Entries.get? k es with
    | none => some (o, Entries.insert k (.table .header []) es)
    | some (.table .implied es') => some (o, Entries.insert k (.table .header es') es)
    | some _ => none
  editAt false start key.dropLast

/-- Opens one more table of a repeated header. -/
def openItem (key : List String) : Edit :=
  let k := key.getLast?.getD ""
  let start : Edit := fun o es =>
    match Entries.get? k es with
    | none => some (o, Entries.insert k (.tables [[]]) es)
    | some (.tables items) => some (o, Entries.insert k (.tables ([] :: items)) es)
    | some _ => none
  editAt false start key.dropLast

mutual

/-- The value of a finished node. -/
def Node.toToml : Node → Toml
  | .value v => v
  | .table _ es => .table (Node.toTomlEntries es)
  | .tables items => .arr (Node.toTomlItems items).reverse

def Node.toTomlEntries : List (String × Node) → List (String × Toml)
  | [] => []
  | (k, n) :: es => (k, n.toToml) :: Node.toTomlEntries es

def Node.toTomlItems : List (List (String × Node)) → List Toml
  | [] => []
  | es :: items => .table (Node.toTomlEntries es) :: Node.toTomlItems items

end

/-! ## Values -/

/-- The items of a list after its opening bracket, at most so many. -/
def items? (item : Reading Toml) : Nat → Reading (List Toml)
  | 0, _ => none
  | n + 1, cs =>
    match skipLines cs.length cs with
    | ']' :: rest => some ([], rest)
    | cs => do
      let (v, rest) ← item cs
      match skipLines rest.length rest with
      | ',' :: rest =>
        let (vs, rest) ← items? item n rest
        return (v :: vs, rest)
      | ']' :: rest => return ([v], rest)
      | _ => none

/-- An entry: a key, an equals sign and a value on one line. -/
def entry? (value : Reading Toml) : Reading (List String × Toml) := fun cs => do
  let (key, rest) ← path? cs
  match rest with
  | '=' :: rest =>
    let (v, rest) ← value (skipBlanks rest)
    return ((key, v), rest)
  | _ => none

/-- The entries of a table in braces after the opening one, at most so many. -/
def inline? (value : Reading Toml) : Nat → Entries Node → Reading Toml
  | 0, _, _ => none
  | n + 1, es, cs => do
    let ((key, v), rest) ← entry? value cs
    let (_, es) ← addEntry key v .header es
    match skipBlanks rest with
    | ',' :: rest => inline? value n es rest
    | '}' :: rest => return (Node.toToml (.table .header es), rest)
    | _ => none

/-- A value with at most a given depth of nesting. -/
def value? : Nat → Reading Toml
  | depth, cs =>
    match cs, depth with
    | '[' :: _, 0 | '{' :: _, 0 => none
    | '[' :: cs, depth + 1 =>
      (items? (value? depth) (cs.length + 1) cs).map fun (vs, rest) => (.arr vs, rest)
    | '{' :: cs, depth + 1 =>
      match skipBlanks cs with
      | '}' :: rest => some (.table [], rest)
      | cs => inline? (value? depth) (cs.length + 1) [] cs
    | '"' :: _, _ | '\'' :: _, _ => (string? cs).map fun (s, rest) => (.str s, rest)
    | cs, _ => (word? cs).bind fun (word, rest) => (scalar? word).map fun v => (v, rest)

/-! ## Documents -/

/-- A document part way through: the table at the root, and the path of the current table. -/
structure Draft where
  root : Entries Node
  current : List String

/-- The draft with the root edited. -/
def Draft.edit (d : Draft) (e : Edit) : Option (Entries Node) :=
  (e .header d.root).map (·.2)

/-- What a header ends with. -/
def closeHeader? : List Char → Nat → Option (List Char)
  | cs, 0 => some cs
  | ']' :: cs, n + 1 => closeHeader? cs n
  | _, _ => none

/-- A header after its opening brackets. -/
def header? (brackets : Nat) (start : List String → Edit) (d : Draft) (cs : List Char) :
    Option (Draft × List Char) := do
  let (key, rest) ← path? cs
  let rest ← closeHeader? rest brackets
  let root ← d.edit (start key)
  return (⟨root, key⟩, rest)

/-- One header or entry. -/
def item? (d : Draft) : List Char → Option (Draft × List Char)
  | '[' :: '[' :: cs => header? 2 openItem d cs
  | '[' :: cs => header? 1 openTable d cs
  | cs => do
    let ((key, v), rest) ← entry? (value? nestingLimit) cs
    let root ← d.edit (editAt false (addEntry key v) d.current)
    return ({ d with root }, rest)

/-- The lines of a document, at most so many. -/
def document? : Nat → Draft → List Char → Option Draft
  | 0, _, _ => none
  | n + 1, d, cs =>
    match skipLines cs.length cs with
    | [] => some d
    | cs => do
      let (d, rest) ← item? d cs
      document? n d (← endLine? rest)

/-- The table that a text denotes. -/
def read? (text : String) : Option (Entries Toml) :=
  let cs := match text.toList with
    | '\uFEFF' :: cs => cs
    | cs => cs
  (document? (cs.length + 1) ⟨[], []⟩ cs).map fun d => Node.toTomlEntries d.root

end VirtualComputer.Toml
