import VirtualComputer.Json.Fields
import VirtualComputer.Json.Marked
import VirtualComputer.Json.Writer

/-!
# Shapes of stored values

A shape says what a stored value has to look like, and `Shape.complaint?` finds the first thing in
a text that is not as it has to be.  Shapes refer to each other by forms, so that they may be
recursive.

A value is read as its text goes by, and a complaint about it is placed at the point reached.  The
fields of tagged nodes are read only once the whole node has gone by: a complaint about one of
them is loose, and is placed where reading stands when the record around the node goes on.
-/

namespace VirtualComputer.Json

/-- What is expected of a value; a form names what else is. -/
inductive Shape (φ : Type) where
  | flag
  | real
  | count
  | text
  /-- Nothing but null, in the place named. -/
  | nothing (place : String)
  | list (s : Shape φ)
  | option (s : Shape φ)
  /-- An object whose values are alike. -/
  | table (s : Shape φ)
  | pair (s t : Shape φ)
  /-- One of several names. -/
  | choice (names : List String)
  | form (f : φ)

/-- Fields with the shapes of their values. -/
abbrev FieldShapes (φ : Type) := List (String × Shape φ)

/-- What a form is. -/
inductive Form (φ : Type) where
  /-- A record. -/
  | record (title : String) (fields : FieldShapes φ)
  /-- A kind under `t`, with its content under `v` if the kind has one. -/
  | content (title : String) (kinds : List (String × Option (Shape φ)))
  /-- A kind under `t`, with its fields beside it. -/
  | node (title : String) (kinds : List (String × FieldShapes φ))
  /-- A record with a node among its fields. -/
  | recordNode (title : String) (fields : FieldShapes φ) (node : String)
    (kinds : List (String × FieldShapes φ))

/-! ## Places -/

/-- A complaint at a place, if one is reached. -/
def Pace.complain (p : Pace) (m : Mark) (text : String) : Complaint :=
  match p with
  | .passing => .placed m text
  | .afterwards => .loose text

/-- A complaint about a value, where reading stands after the value. -/
def Pace.settle (p : Pace) (m : Mark) : Complaint → Complaint
  | .loose said => p.complain m said
  | c => c

/-- Where a value begins. -/
def Marked.start : Marked → Mark
  | .scalar _ m _ | .arr m .. | .obj m .. => m
  | .broken (.placed m _) => m
  | _ => ⟨1, 0⟩

namespace Shape

/-! ## Wording -/

/-- Names for a message. -/
def oneOf (names : List String) : String :=
  let quoted := names.map fun n => "`" ++ n ++ "`"
  match quoted with
  | [a] => a
  | [a, b] => a ++ " or " ++ b
  | _ => "one of " ++ ", ".intercalate quoted

def unknownName (name : String) (names : List String) : String :=
  "unknown variant `" ++ name ++ "`, expected " ++ oneOf names

def missingField (name : String) : String :=
  "missing field `" ++ name ++ "`"

def repeatedField (name : String) : String :=
  "duplicate field `" ++ name ++ "`"

/-- A number of things. -/
def counted (n : Nat) (thing : String) : String :=
  Decimal.integerText n ++ " " ++ thing ++ (if n = 1 then "" else "s")

def wrongLength (n : Nat) (expected : String) : String :=
  "invalid length " ++ Decimal.integerText n ++ ", expected " ++ expected

/-- How a character of a string is shown in a message. -/
def shownChar (c : Char) : List Char :=
  if c = '"' then ['\\', '"']
  else if c = '\\' then ['\\', '\\']
  else if c = '\n' then ['\\', 'n']
  else if c = '\r' then ['\\', 'r']
  else if c = '\t' then ['\\', 't']
  else if c.toNat = 0 then ['\\', '0']
  else if c.toNat < 32 ∨ c.toNat = 127 then
    ['\\', 'u', '{'] ++ Nat.toDigits 16 c.toNat ++ ['}']
  else [c]

/-- What a scalar is called in a message. -/
def scalarName : Json → String
  | .null => "null"
  | .bool true => "boolean `true`"
  | .bool false => "boolean `false`"
  | .int i => "integer `" ++ Decimal.integerText i ++ "`"
  | .float x => "floating point `" ++ String.ofList (writeFloat x) ++ "`"
  | .str s => "string " ++ String.ofList ('"' :: s.toList.flatMap shownChar ++ ['"'])
  | .arr _ => "sequence"
  | .obj _ => "map"
  | .unusable => ""

/-- What a value is called in a message. -/
def valueName : Marked → String
  | .scalar j .. => scalarName j
  | .arr .. => "sequence"
  | .obj .. => "map"
  | .broken _ | .unreadable .. => ""

/-- A complaint about a value that is not of the expected kind.  A list or an object is noticed at
its bracket. -/
def mistyped (p : Pace) (expected : String) (v : Marked) : Complaint :=
  let text := "invalid type: " ++ valueName v ++ ", expected " ++ expected
  match v with
  | .scalar _ _ stop => p.complain stop text
  | .arr start .. | .obj start .. => p.complain start text
  | .broken c => c
  | .unreadable .. => .loose text

/-- Where reading stands once a list or an object has been opened. -/
def inside (v : Marked) : Mark :=
  match v with
  | .arr _ ((item, _) :: _) _ => item.met.start
  | .arr _ _ (.ok m) | .obj _ _ (.ok m) | .scalar _ _ m => m
  | v => v.start

/-! ## Scalars -/

/-- A complaint about a flag, a number or a text. -/
def scalarComplaint? (p : Pace) (shape : Shape φ) (v : Marked) : Option Complaint :=
  match shape, v with
  | .flag, .scalar (.bool _) .. => none
  | .flag, v => some (mistyped p "a boolean" v)
  | .real, .scalar (.int _) .. | .real, .scalar (.float _) .. => none
  | .real, v => some (mistyped p "f64" v)
  | .count, .scalar (.int i) _ stop =>
    if 0 ≤ i then none
    else some (p.complain stop
      ("invalid value: integer `" ++ Decimal.integerText i ++ "`, expected usize"))
  | .count, v => some (mistyped p "usize" v)
  | .text, .scalar (.str _) .. => none
  | .text, v => some (mistyped p "a string" v)
  | _, _ => none

/-- A complaint about what stands under a name that is the one key of an object: nothing may, and
afterwards an empty object is nothing, too. -/
def unitComplaint? (p : Pace) (w : Marked) (after : Mark) : Option Complaint :=
  match p, w with
  | _, .scalar .null .. => none
  | .afterwards, .obj _ [] _ => none
  | p, .scalar _ _ stop => some (p.settle stop (mistyped p "unit" w))
  | p, w => some (p.settle after (mistyped p "unit" w))

/-- A complaint about a value that is to be one of several names.  A name may also be the one key
of an object, with nothing under it. -/
def choiceComplaint? (p : Pace) (names : List String) (v : Marked) : Option Complaint :=
  match p, v.met with
  | p, .scalar (.str s) _ stop =>
    if names.contains s then none else some (p.complain stop (unknownName s names))
  | p, .obj _ [((s, colon), w, after)] stop =>
    if !names.contains s then some (p.complain colon (unknownName s names))
    else (unitComplaint? p w.met after).or (Marked.complaint? stop)
  | _, .broken c => some c
  | .afterwards, .obj .. => some (.loose "invalid value: map, expected map with a single key")
  | .afterwards, v => some (mistyped .afterwards "string or map" v)
  | .passing, v => some (.placed { v.start with column := v.start.column + 1 } "expected value")

/-! ## Records -/

variable {φ : Type} (check : Pace → Shape φ → Marked → Option Complaint)

abbrev Member := (String × Mark) × Marked × Mark

/-- A complaint about members one after the other: one that is repeated, or one whose value is
not as it has to be.  Members without a shape only have to be data, of which a copy is made if there
is use for it. -/
def membersComplaint? (p : Pace) (fields : FieldShapes φ) (copied : Bool) :
    List String → List Member → Option Complaint
  | _, [] => none
  | seen, ((k, colon), v, after) :: rest =>
    match fields.lookup k with
    | none => (v.brokenness? copied).or (membersComplaint? p fields copied seen rest)
    | some s =>
      if seen.contains k then some (p.complain colon (repeatedField k))
      else
        ((check p s v).map (p.settle after)).or
          (membersComplaint? p fields copied (k :: seen) rest)

/-- Whether a field may be absent. -/
def isOption : Shape φ → Bool
  | .option _ => true
  | _ => false

/-- The first field that is missing. -/
def missing? (fields : FieldShapes φ) (members : List Member) : Option String :=
  (fields.find? fun (k, s) => !isOption s && !members.any (·.1.1 = k)).map (·.1)

/-- The end of a list or an object, or what is wrong with it. -/
def atEnd (stop : Except Complaint Mark) (f : Mark → Option Complaint) : Option Complaint :=
  match stop with
  | .error c => some c
  | .ok m => f m

/-- A complaint about the fields of a record. -/
def fieldsComplaint? (p : Pace) (fields : FieldShapes φ) (copied : Bool) (members : List Member)
    (stop : Except Complaint Mark) : Option Complaint :=
  (membersComplaint? check p fields copied [] members).or <| atEnd stop fun m =>
    (missing? fields members).map fun k => p.complain m (missingField k)

/-- A complaint about items that are given in the order of the fields. -/
def itemsComplaint? (p : Pace) (title : String) (fields : FieldShapes φ)
    (items : List (Marked × Mark)) (stop : Except Complaint Mark) : Option Complaint :=
  let bad := (fields.zip items).findSome? fun ((_, s), v, after) => (check p s v).map (p.settle after)
  bad.or <|
    if items.length < fields.length then
      atEnd stop fun m => some <| p.complain m <|
        wrongLength items.length (title ++ " with " ++ counted fields.length "element")
    else match items[fields.length]?, p with
      | none, _ => atEnd stop fun _ => none
      | some _, .afterwards =>
        some (.loose (wrongLength items.length (counted fields.length "element" ++ " in sequence")))
      | some (v, _), .passing =>
        let m := v.met.start
        some (.placed { m with column := m.column + 1 } "trailing characters")

/-- A complaint about a record. -/
def recordComplaint? (p : Pace) (title : String) (fields : FieldShapes φ) (v : Marked) :
    Option Complaint :=
  match v with
  | .obj _ members stop => fieldsComplaint? check p fields false members stop
  | .arr _ items stop => itemsComplaint? check p title fields items stop
  | v => some (mistyped p title v)

/-! ## Kinds with content -/

/-- The shape of the content of a kind; kinds without one may have null for it. -/
def contentShape (title : String) (kinds : List (String × Option (Shape φ))) (kind : String) :
    Shape φ :=
  match kinds.lookup kind with
  | some (some s) => s
  | _ => .nothing (title ++ "::" ++ kind)

/-- Whether a kind has content that may not be absent. -/
def needsContent (kinds : List (String × Option (Shape φ))) (kind : String) : Bool :=
  match kinds.lookup kind with
  | some (some s) => !isOption s
  | _ => false

/-- The name that a value gives, if it is one of those that are known; it may give its number. -/
def nameOf? (names : List String) (v : Marked) : Option String :=
  match v.met with
  | .scalar (.str s) .. => some s
  | .scalar (.int i) .. => if 0 ≤ i then names[i.toNat]? else none
  | .obj _ [((s, _), _)] _ => some s
  | _ => none

/-- A complaint about members after the kind and its content have been seen. -/
def restComplaint? (p : Pace) : List Member → Option Complaint
  | [] => none
  | ((k, colon), v, _) :: rest =>
    if k = "t" ∨ k = "v" then some (p.complain colon (repeatedField k))
    else (v.brokenness? false).or (restComplaint? p rest)

/-- A complaint about members of which the kind has been seen. -/
def afterKind? (p : Pace) (title : String) (kinds : List (String × Option (Shape φ)))
    (kind : String) (stop : Except Complaint Mark) : List Member → Option Complaint
  | [] => atEnd stop fun m =>
    if needsContent kinds kind then some (p.complain m (missingField "v")) else none
  | ((k, colon), v, after) :: rest =>
    if k = "t" then some (p.complain colon (repeatedField k))
    else if k = "v" then
      (((check p (contentShape title kinds kind) v).map (p.settle after)).or
        (restComplaint? p rest)).or (atEnd stop fun _ => none)
    else (v.brokenness? false).or (afterKind? p title kinds kind stop rest)

/-- A complaint about members of which the content has been seen, but not the kind. -/
def afterContent? (p : Pace) (title : String) (kinds : List (String × Option (Shape φ)))
    (content : Marked) (stop : Except Complaint Mark) : List Member → Option Complaint
  | [] => atEnd stop fun m => some (p.complain m (missingField "t"))
  | ((k, colon), v, after) :: rest =>
    if k = "v" then some (p.complain colon (repeatedField k))
    else if k = "t" then
      let named := choiceComplaint? p (kinds.map (·.1)) v
      let shape := contentShape title kinds ((nameOf? (kinds.map (·.1)) v).getD "")
      ((named.or ((check .afterwards shape content).map (p.settle after))).or
        (restComplaint? p rest)).or (atEnd stop fun _ => none)
    else (v.brokenness? false).or (afterContent? p title kinds content stop rest)

/-- A complaint about members of which neither the kind nor the content has been seen. -/
def contentMembers? (p : Pace) (title : String) (kinds : List (String × Option (Shape φ)))
    (stop : Except Complaint Mark) : List Member → Option Complaint
  | [] => atEnd stop fun m => some (p.complain m (missingField "t"))
  | ((k, _), v, _) :: rest =>
    if k = "t" then
      (choiceComplaint? p (kinds.map (·.1)) v).or
        (afterKind? check p title kinds ((nameOf? (kinds.map (·.1)) v).getD "") stop rest)
    else if k = "v" then
      (v.brokenness? true).or (afterContent? check p title kinds v stop rest)
    else (v.brokenness? false).or (contentMembers? p title kinds stop rest)

/-- A complaint about a kind with its content. -/
def contentComplaint? (p : Pace) (title : String) (kinds : List (String × Option (Shape φ)))
    (v : Marked) : Option Complaint :=
  let expected := "adjacently tagged enum " ++ title
  match v with
  | .obj _ members stop => contentMembers? check p title kinds stop members
  | .arr _ [] stop => atEnd stop fun m => some (p.complain m (wrongLength 0 expected))
  | .arr _ ((kind, _) :: rest) stop =>
    (choiceComplaint? p (kinds.map (·.1)) kind).or <|
      match rest with
      | [] => atEnd stop fun m => some (p.complain m (wrongLength 1 expected))
      | _ =>
        itemsComplaint? check p expected
          [("v", contentShape title kinds ((nameOf? (kinds.map (·.1)) kind).getD ""))] rest stop
  | v => some (mistyped p expected v)

/-! ## Nodes -/

/-- A number that is not that of a kind. -/
def wrongNumber (i : Int) (kinds : Nat) : String :=
  "invalid value: integer `" ++ Decimal.integerText i ++ "`, expected variant index 0 <= i < " ++
    Decimal.integerText kinds

/-- A complaint about the kind of a node, of which the number will do afterwards. -/
def kindComplaint? (p : Pace) (kinds : List (String × FieldShapes φ)) (v : Marked) :
    Option Complaint :=
  match p, v.met with
  | p, .scalar (.str s) _ stop =>
    let names := kinds.map (·.1)
    if names.contains s then none else some (p.complain stop (unknownName s names))
  | .afterwards, .scalar (.int i) start stop =>
    if i < 0 then some (mistyped p "variant identifier" (.scalar (.int i) start stop))
    else if i < kinds.length then none
    else some (.loose (wrongNumber i kinds.length))
  | p, v => some (mistyped p "variant identifier" v)

/-- A complaint about members among which there has to be one kind. -/
def kindMembers? (p : Pace) (kinds : List (String × FieldShapes φ)) :
    Bool → List Member → Option Complaint
  | _, [] => none
  | seen, ((k, colon), v, after) :: rest =>
    if k = "t" then
      if seen then some (p.complain colon (repeatedField k))
      else ((kindComplaint? p kinds v).map (p.settle after)).or (kindMembers? p kinds true rest)
    else (v.brokenness? true).or (kindMembers? p kinds seen rest)

/-- A complaint about the fields of a node, which are read after the whole of it. -/
def nodeFields? (kinds : List (String × FieldShapes φ)) (members : List Member) :
    Option Complaint :=
  match (members.find? (·.1.1 = "t")).bind fun (_, v, _) => nameOf? (kinds.map (·.1)) v with
  | none => none
  | some kind =>
    fieldsComplaint? check .afterwards ((kinds.lookup kind).getD []) true
      (members.filter (·.1.1 ≠ "t")) (.ok ⟨1, 0⟩)

/-- A complaint about a node that is an object. -/
def nodeMembers? (p : Pace) (kinds : List (String × FieldShapes φ)) (members : List Member)
    (stop : Except Complaint Mark) : Option Complaint :=
  ((kindMembers? p kinds false members).or <| atEnd stop fun m =>
    if members.any (·.1.1 = "t") then none else some (p.complain m (missingField "t"))).or
  (nodeFields? check kinds members)

/-- A complaint about a node. -/
def nodeComplaint? (p : Pace) (title : String) (kinds : List (String × FieldShapes φ))
    (v : Marked) : Option Complaint :=
  match v with
  | .obj _ members stop => nodeMembers? check p kinds members stop
  | .arr _ [] stop => atEnd stop fun m => some (p.complain m (missingField "t"))
  | .arr start ((kind, _) :: rest) stop =>
    ((kindComplaint? p kinds kind).or ((Marked.arr start rest stop).brokenness? true)).or <|
      let name := (nameOf? (kinds.map (·.1)) kind).getD ""
      itemsComplaint? check .afterwards ("struct variant " ++ title ++ "::" ++ name)
        ((kinds.lookup name).getD []) rest stop
  | v => some (mistyped p ("internally tagged enum " ++ title) v)

/-- A complaint about a record with a node among its fields. -/
def recordNodeComplaint? (p : Pace) (title : String) (fields : FieldShapes φ)
    (kinds : List (String × FieldShapes φ)) (v : Marked) : Option Complaint :=
  match v with
  | .obj _ members stop =>
    (fieldsComplaint? check p fields true members stop).or <| atEnd stop fun m =>
      (nodeMembers? check .afterwards kinds
        (members.filter fun member => (fields.lookup member.1.1).isNone) (.ok m)).map (p.settle m)
  | v => some (mistyped p title v)

/-! ## All shapes -/

/-- A complaint about a form. -/
def formComplaint? (p : Pace) (f : Form φ) (v : Marked) : Option Complaint :=
  match f with
  | .record title fields => recordComplaint? check p ("struct " ++ title) fields v
  | .content title kinds => contentComplaint? check p title kinds v
  | .node title kinds => nodeComplaint? check p title kinds v
  | .recordNode title fields _ kinds =>
    recordNodeComplaint? check p ("struct " ++ title) fields kinds v

/-- A complaint about a list. -/
def listComplaint? (p : Pace) (s : Shape φ) (v : Marked) : Option Complaint :=
  match v with
  | .arr _ items stop =>
    (items.findSome? fun (v, after) => (check p s v).map (p.settle after)).or
      (atEnd stop fun _ => none)
  | v => some (mistyped p "a sequence" v)

/-- A complaint about an object whose values are alike. -/
def tableComplaint? (p : Pace) (s : Shape φ) (v : Marked) : Option Complaint :=
  match v with
  | .obj _ members stop =>
    (members.findSome? fun (_, v, after) => (check p s v).map (p.settle after)).or
      (atEnd stop fun _ => none)
  | v => some (mistyped p "a map" v)

/-- A complaint about a pair. -/
def pairComplaint? (p : Pace) (s t : Shape φ) (v : Marked) : Option Complaint :=
  match v with
  | .arr _ items stop =>
    match items, p with
    | [_], _ | [], _ =>
      (items.findSome? fun (v, after) => (check p s v).map (p.settle after)).or <| atEnd stop fun m =>
        some (p.complain m (wrongLength items.length "a tuple of size 2"))
    | _, _ => itemsComplaint? check p "" [("", s), ("", t)] items stop
  | v => some (mistyped p "a tuple of size 2" v)

/-- The first complaint about a value of a shape, followed down to a given depth of shapes. -/
def complaintTo? (forms : φ → Form φ) : Nat → Pace → Shape φ → Marked → Option Complaint
  | 0, _, _, _ => none
  | n + 1, p, shape, v =>
    match shape, v.met with
    | _, .broken c => some c
    | .nothing _, .scalar .null .. => none
    | .nothing place, .scalar j start stop =>
      some (mistyped p ("unit variant " ++ place) (.scalar j start stop))
    | .nothing place, v =>
      some (p.settle (inside v) (mistyped .afterwards ("unit variant " ++ place) v))
    | .list s, v => listComplaint? (complaintTo? forms n) p s v
    | .option _, .scalar .null .. => none
    | .option s, v => complaintTo? forms n p s v
    | .table s, v => tableComplaint? (complaintTo? forms n) p s v
    | .pair s t, v => pairComplaint? (complaintTo? forms n) p s t v
    | .choice names, v => choiceComplaint? p names v
    | .form f, v => formComplaint? (complaintTo? forms n) p (forms f) v
    | s, v => scalarComplaint? p s v

/-- The depth of shapes that belongs to the deepest text: each list or object takes at most a
form, an option and a list. -/
def depthLimit : Nat := 4 * nestingLimit + 4

/-- The first complaint about a text that is to be of a shape. -/
def complaint? (forms : φ → Form φ) (s : Shape φ) (text : String) : Option Complaint :=
  let (v, trailing) := Marked.ofText text
  (complaintTo? forms depthLimit .passing s v).or trailing

end Shape

end VirtualComputer.Json
