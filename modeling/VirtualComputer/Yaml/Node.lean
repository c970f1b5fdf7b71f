import VirtualComputer.Yaml.Token

/-!
# Nodes of YAML texts

A text holds at most one document, whose nodes are scalars, lists, mappings, and references to nodes
that have been given names.
-/

namespace VirtualComputer.Yaml

inductive Node where
  /-- A plain text, which may have a tag. -/
  | plain (tag : Option Tag) (text : String)
  | quoted (text : String)
  | list (items : List Node)
  /-- The keys and the values in turn. -/
  | mapping (parts : List Node)
  | named (anchor : String) (node : Node)
  | reference (anchor : String)
  deriving Inhabited

/-- Reads something at the start of some tokens. -/
abbrev Reading (α : Type) := List Token → Option (α × List Token)

namespace Node

/-- The node that stands where none is written. -/
def nothing : Node := .plain none "~"

/-- A node with the name that is written before it. -/
def withName (anchor : Option String) (node : Node) : Node :=
  match anchor with
  | some name => .named name node
  | none => node

/-! ## Parts of collections -/

/-- A node, or none before some tokens. -/
def orNothing (ends : List Token) (node : Reading Node) : Reading Node := fun ts =>
  if ts.head?.any ends.contains then some (nothing, ts) else node ts

/-- The items of a list in a block, at most so many. -/
def blockItems? (node : Reading Node) : Nat → Reading (List Node)
  | n + 1, .item :: ts => do
    let (a, ts) ← orNothing [.item, .blockEnd] node ts
    let (more, ts) ← blockItems? node n ts
    return (a :: more, ts)
  | _, .blockEnd :: ts => some ([], ts)
  | _, _ => none

/-- The items of a list whose dashes stand below the key of a mapping, at most so many. -/
def flatItems? (node : Reading Node) : Nat → Reading (List Node)
  | n + 1, .item :: ts => do
    let (a, ts) ← orNothing [.item, .key, .value, .blockEnd] node ts
    let (more, ts) ← flatItems? node n ts
    return (a :: more, ts)
  | _, ts => some ([], ts)

/-- A value after its mark, or none. -/
def value? (ends : List Token) (node : Reading Node) : Reading Node
  | .value :: ts => orNothing ends node ts
  | ts => some (nothing, ts)

/-- The parts of a mapping in a block, at most so many pairs. -/
def blockParts? (node : Reading Node) : Nat → Reading (List Node)
  | _, .blockEnd :: ts => some ([], ts)
  | n + 1, ts => do
    let ends : List Token := [.key, .value, .blockEnd]
    let (k, ts) ← match ts with
      | .key :: ts => orNothing ends node ts
      | .value :: _ => some (nothing, ts)
      | _ => none
    let (v, ts) ← value? ends node ts
    let (more, ts) ← blockParts? node n ts
    return (k :: v :: more, ts)
  | 0, _ => none

/-- The tokens after a comma, which only the first part of a collection in brackets does without. -/
def afterComma? (first : Bool) : List Token → Option (List Token)
  | .comma :: ts => if first then some (.comma :: ts) else some ts
  | ts => if first then some ts else none

/-- The items of a list in brackets, at most so many.  A pair without braces is a mapping. -/
def listItems? (node : Reading Node) : Nat → (first : Bool) → Reading (List Node)
  | _, _, .listEnd :: ts => some ([], ts)
  | 0, _, _ => none
  | n + 1, first, ts => do
    match ← afterComma? first ts with
    | .listEnd :: ts => return ([], ts)
    | .key :: ts =>
      let (k, ts) ← node ts
      let (v, ts) ← value? [.comma, .listEnd] node ts
      let (more, ts) ← listItems? node n false ts
      return (.mapping [k, v] :: more, ts)
    | ts =>
      let (a, ts) ← node ts
      let (more, ts) ← listItems? node n false ts
      return (a :: more, ts)

/-- The parts of a mapping in braces, at most so many pairs. -/
def mappingParts? (node : Reading Node) : Nat → (first : Bool) → Reading (List Node)
  | _, _, .mappingEnd :: ts => some ([], ts)
  | 0, _, _ => none
  | n + 1, first, ts => do
    let ts ← afterComma? first ts
    if ts.head? = some .mappingEnd then return ([], ts.drop 1)
    let (k, v, ts) ← match ts with
      | .key :: ts => do
        let (k, ts) ← orNothing [.value, .comma, .mappingEnd] node ts
        let (v, ts) ← value? [.comma, .mappingEnd] node ts
        some (k, v, ts)
      | .value :: _ => (value? [.comma, .mappingEnd] node ts).map fun (v, ts) => (nothing, v, ts)
      | ts => (node ts).map fun (k, ts) => (k, nothing, ts)
    let (more, ts) ← mappingParts? node n false ts
    return (k :: v :: more, ts)

/-! ## Nodes -/

/-- Where a node stands. -/
inductive Place where
  | inBrackets
  | inBlock
  /-- In a block, as a part of a mapping. -/
  | inMapping
  deriving DecidableEq, Repr

/-- The names and tags before a node. -/
def marks : List Token → Option String × Option Tag × List Token
  | .anchor name :: .tag t :: ts | .tag t :: .anchor name :: ts => (some name, some t, ts)
  | .anchor name :: ts => (some name, none, ts)
  | .tag t :: ts => (none, some t, ts)
  | ts => (none, none, ts)

/-- A node of at most the given depth. -/
def read? : Nat → Place → Reading Node
  | 0, _, _ => none
  | _, _, .reference name :: ts => some (.reference name, ts)
  | n + 1, place, ts => do
    let (anchor, tag, ts) := marks ts
    let inBlock := place ≠ .inBrackets
    let (node, ts) ← match ts with
      | .scalar isPlain text :: ts => some (if isPlain then .plain tag text else .quoted text, ts)
      | .listStart :: ts =>
        (listItems? (read? n .inBrackets) ts.length true ts).map fun (items, ts) => (.list items, ts)
      | .mappingStart :: ts =>
        (mappingParts? (read? n .inBrackets) ts.length true ts).map fun (parts, ts) =>
          (.mapping parts, ts)
      | t :: rest =>
        if t = .blockList ∧ inBlock then
          (blockItems? (read? n .inBlock) rest.length rest).map fun (items, ts) => (.list items, ts)
        else if t = .blockMapping ∧ inBlock then
          (blockParts? (read? n .inMapping) rest.length rest).map fun (parts, ts) =>
            (.mapping parts, ts)
        else if t = .item ∧ place = .inMapping then
          (flatItems? (read? n .inBlock) ts.length ts).map fun (items, ts) => (.list items, ts)
        else unwritten? anchor tag ts
      | [] => unwritten? anchor tag []
    return (withName anchor node, ts)
where
  /-- A node that is not written but has a name or a tag. -/
  unwritten? (anchor : Option String) (tag : Option Tag) (ts : List Token) :
      Option (Node × List Token) :=
    if anchor.isSome || tag.isSome then some (.plain tag "", ts) else none

/-! ## Documents -/

/-- What follows the marks at the start of a document, of which a directive needs the others; at most
one directive may tell the version. -/
def content? (ts : List Token) : Option (Bool × List Token) :=
  let isDirective (t : Token) : Bool := t = .directive true || t = .directive false
  let directives := ts.takeWhile isDirective
  match ts.dropWhile isDirective with
  | .documentStart :: rest =>
    if directives.count (.directive true) ≤ 1 then some (true, rest) else none
  | rest => if directives.isEmpty then some (false, rest) else none

/-- The node of the document that some tokens hold, if they hold one; they may not hold more. -/
def ofTokens? (ts : List Token) : Option (Option Node) := do
  let ts := ts.dropWhile (· = .documentEnd)
  if ts.isEmpty then return none
  let (marked, ts) ← content? ts
  let ends : List Token := [.directive true, .directive false, .documentStart, .documentEnd]
  let (node, ts) ←
    if marked && ts.head?.all ends.contains then some (nothing, ts)
    else read? (ts.length + 1) .inBlock ts
  if ts.all (· = .documentEnd) then return some node else none

end Node

end VirtualComputer.Yaml
