import VirtualComputer.Json.Token

/-!
# Reading data texts

The tokens of a text are read in one pass with a stack of the lists and objects that are still
open.  `Json.read?` accepts exactly the texts of one value.  What is nested too deeply in it cannot
be used, nor can an object with a key that is no text.
-/

namespace VirtualComputer.Json

/-- A list or object still open, its contents last first. -/
inductive Container where
  | list (items : List Json)
  /-- An object, with the key whose value is being read. -/
  | object (members : List (Option String × Json)) (key : Option String)

/-- What may come next. -/
inductive Expect where
  | value
  | valueOrClose
  | key
  | keyOrClose
  | colon
  | separator
  /-- Nothing more: the text has denoted this value. -/
  | finished (j : Json)

structure Reader where
  opened : List Container
  expect : Expect

namespace Reader

/-- A value is complete: it goes into the innermost container, or is the value of the text. -/
def complete (opened : List Container) (j : Json) : Reader :=
  match opened with
  | [] => ⟨[], .finished j⟩
  | .list items :: rest => ⟨.list (j :: items) :: rest, .separator⟩
  | .object members key :: rest => ⟨.object ((key, j) :: members) key :: rest, .separator⟩

/-- A list or object is complete.  It can be used if there is room for it in what is around it. -/
def close (limit : Nat) (opened : List Container) (j : Json) : Reader :=
  complete opened (if opened.length < limit then j else .unusable)

/-- The object with some members, which are given last first. -/
def object (members : List (Option String × Json)) : Json :=
  let named := members.reverse.mapM fun (m : Option String × Json) => m.1.map fun k => (k, m.2)
  (named.map Json.obj).getD .unusable

/-- A token where a value may start. -/
def start (opened : List Container) : Token → Option Reader
  | .scalar j => some (complete opened j)
  | .text s => some (complete opened ((s.map Json.str).getD .unusable))
  | .openList => some ⟨.list [] :: opened, .valueOrClose⟩
  | .openObject => some ⟨.object [] none :: opened, .keyOrClose⟩
  | _ => none

/-- Reads one token. -/
def step (limit : Nat) (r : Reader) (t : Token) : Option Reader :=
  match r.expect, r.opened, t with
  | .value, opened, t => start opened t
  | .valueOrClose, .list items :: rest, .closeList => some (close limit rest (.arr items.reverse))
  | .valueOrClose, opened, t => start opened t
  | .keyOrClose, .object members _ :: rest, .closeObject => some (close limit rest (object members))
  | .keyOrClose, .object members _ :: rest, .text k => some ⟨.object members k :: rest, .colon⟩
  | .key, .object members _ :: rest, .text k => some ⟨.object members k :: rest, .colon⟩
  | .colon, opened, .colon => some ⟨opened, .value⟩
  | .separator, .list items :: rest, .comma => some ⟨.list items :: rest, .value⟩
  | .separator, .list items :: rest, .closeList => some (close limit rest (.arr items.reverse))
  | .separator, .object members k :: rest, .comma => some ⟨.object members k :: rest, .key⟩
  | .separator, .object members _ :: rest, .closeObject => some (close limit rest (object members))
  | _, _, _ => none

/-- The value of the text, if it is complete. -/
def result? (r : Reader) : Option Json :=
  match r.expect with
  | .finished j => some j
  | _ => none

end Reader

/-- The value of a list of tokens, with at most so many lists and objects around what can be used. -/
def ofTokens? (limit : Nat) (ts : List Token) : Option Json :=
  (ts.foldlM (Reader.step limit) ⟨[], .value⟩).bind Reader.result?

/-- The value that a text denotes. -/
def read? (text : String) : Option Json :=
  (tokens? text.toList).bind (ofTokens? nestingLimit)

end VirtualComputer.Json
