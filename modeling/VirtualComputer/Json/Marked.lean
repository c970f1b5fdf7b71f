import VirtualComputer.Json.Token

/-!
# Marked data texts

A text is read into a tree whose nodes know where they begin and end.  Reading stops at the first
place where the text is no data text, and the tree keeps what stands before that place, so that
whatever is wrong with a text can be reported in the order in which it is come across.  What can
only be passed over is kept together with the complaint that arises where it is read.
-/

namespace VirtualComputer.Json

/-! ## Places -/

/-- A place in a text: its line, counted from one, and the bytes before it on that line. -/
structure Mark where
  line : Nat
  column : Nat
  deriving DecidableEq, Repr

/-- The place after a character. -/
def Mark.past (m : Mark) (c : Char) : Mark :=
  if c = '\n' then ⟨m.line + 1, 0⟩ else ⟨m.line, m.column + c.utf8Size⟩

/-- What is wrong with a text. -/
inductive Complaint where
  | placed (m : Mark) (text : String)
  /-- A complaint about a value as a whole, whose place depends on what is around it. -/
  | loose (text : String)
  deriving DecidableEq, Repr

/-- The text of a complaint. -/
def Complaint.message : Complaint → String
  | .placed m text =>
    text ++ " at line " ++ Decimal.integerText m.line ++ " column " ++ Decimal.integerText m.column
  | .loose text => text

/-- What is left of a text. -/
structure Source where
  rest : List Char
  mark : Mark

namespace Source

def ofText (text : String) : Source := ⟨text.toList, ⟨1, 0⟩⟩

/-- The place one byte further on, or the end of the text. -/
def ahead (s : Source) : Mark :=
  match s.rest with
  | [] => s.mark
  | c :: _ => if c = '\n' then s.mark.past c else ⟨s.mark.line, s.mark.column + 1⟩

/-- Leaves out one character. -/
def drop (s : Source) : Source :=
  match s.rest with
  | [] => s
  | c :: cs => ⟨cs, s.mark.past c⟩

/-- Leaves out the characters of a class at the begin. -/
def dropAll (p : Char → Bool) (m : Mark) : List Char → Source
  | [] => ⟨[], m⟩
  | c :: cs => if p c then dropAll p (m.past c) cs else ⟨c :: cs, m⟩

/-- Leaves out blanks. -/
def skip (s : Source) : Source :=
  dropAll Lexer.isBlank s.mark s.rest

/-- Leaves out digits. -/
def skipDigits (s : Source) : Source :=
  dropAll Char.isDigit s.mark s.rest

end Source

/-! ## Scalars -/

/-- What is read from a source, and what is left of it. -/
abbrev Reading (α : Type) := Except Complaint (α × Source)

/-- Why a character cannot continue a string. -/
def textComplaint (mode : Mode) (s : Source) : Complaint :=
  match mode, s.rest with
  | .text _, c :: _ =>
    .placed (s.mark.past c) "control character (\\u0000-\\u001F) found while parsing a string"
  | .escaped _, _ => .placed s.ahead "invalid escape"
  | .hex _ _ count _, c :: cs =>
    if (Lexer.hexValue? c).isSome then
      .placed (s.mark.past c) "lone leading surrogate in hex escape"
    else if 4 ≤ count + (String.ofList (c :: cs)).utf8ByteSize then
      .placed ⟨s.mark.line, s.mark.column + 4 - count⟩ "invalid escape"
    else .placed ((c :: cs).foldl Mark.past s.mark) "EOF while parsing a string"
  | _, _ => .placed s.ahead "unexpected end of hex escape"

/-- Whether the characters read so far are a text. -/
def Mode.isSound : Mode → Bool
  | .text seen | .escaped seen | .hex seen .. | .half seen _ | .halfEscaped seen _ => seen.isSome
  | _ => true

/-- Reads the rest of a string.  `flaw` is the complaint about half of a surrogate pair in it, with
which the string can be passed over but not read. -/
def scanText (flaw : Option Complaint) (mode : Mode) (m : Mark) :
    List Char → Reading (Except Complaint String)
  | [] => .error (.placed m "EOF while parsing a string")
  | c :: cs =>
    match Lexer.step ⟨mode, []⟩ c with
    | none => .error (textComplaint mode ⟨c :: cs, m⟩)
    | some ⟨next, tokens⟩ =>
      match tokens, flaw with
      | .text (some s) :: _, none => .ok (.ok s, ⟨cs, m.past c⟩)
      | .text none :: _, none => .ok (.error (textComplaint mode ⟨c :: cs, m⟩), ⟨cs, m.past c⟩)
      | _ :: _, some flaw => .ok (.error flaw, ⟨cs, m.past c⟩)
      | _, some flaw => scanText (some flaw) next (m.past c) cs
      | _, none =>
        let flaw := if next.isSound then none else some (textComplaint mode ⟨c :: cs, m⟩)
        scanText flaw next (m.past c) cs

/-- Reads a string after its opening quote. -/
def scanQuoted (m : Mark) (cs : List Char) : Reading (Except Complaint String) :=
  scanText none (.text (some [])) m cs

/-- Reads the rest of a word. -/
def scanWord (m : Mark) : List Char → List Char → Except Complaint Source
  | [], cs => .ok ⟨cs, m⟩
  | _ :: _, [] => .error (.placed m "EOF while parsing a value")
  | w :: ws, c :: cs =>
    if w = c then scanWord (m.past c) ws cs
    else .error (.placed (Source.ahead ⟨c :: cs, m⟩) "expected ident")

/-- Requires a digit, and leaves out all that follow each other. -/
def someDigits (s : Source) : Except Complaint Source :=
  match s.rest with
  | [] => .error (.placed s.mark "EOF while parsing a value")
  | c :: _ => if c.isDigit then .ok s.skipDigits else .error (.placed s.ahead "invalid number")

/-- Leaves out the digits before the point, of which only the only one may be zero. -/
def wholeDigits (s : Source) : Except Complaint Source :=
  match s.rest with
  | '0' :: c :: _ => if c.isDigit then .error (.placed s.drop.ahead "invalid number") else .ok s.drop
  | _ => someDigits s

/-- Leaves out a point and the digits after it. -/
def fractionDigits (s : Source) : Except Complaint Source :=
  match s.rest with
  | '.' :: _ => someDigits s.drop
  | _ => .ok s

/-- Leaves out a power of ten. -/
def exponentDigits (s : Source) : Except Complaint Source :=
  match s.rest with
  | c :: _ =>
    if c = 'e' ∨ c = 'E' then
      let s := s.drop
      match s.rest with
      | '+' :: _ | '-' :: _ => someDigits s.drop
      | _ => someDigits s
    else .ok s
  | [] => .ok s

/-- Reads a number.  One that is out of range can be passed over. -/
def scanNumber (s : Source) : Except Complaint (Except Complaint Json × Source) := do
  let unsigned := match s.rest with
    | '-' :: _ => s.drop
    | _ => s
  let stop ← exponentDigits (← fractionDigits (← wholeDigits unsigned))
  let flaw := Complaint.placed stop.mark "number out of range"
  match Token.number? (s.rest.take (s.rest.length - stop.rest.length)) with
  | none | some .unusable => return (.error flaw, stop)
  | some j => return (.ok j, stop)

/-- Reads a value that is neither a list nor an object. -/
def scanScalar (s : Source) : Reading (Except Complaint Json) :=
  let word (j : Json) (cs : List Char) : Reading (Except Complaint Json) :=
    (scanWord s.drop.mark cs s.drop.rest).map fun s => (.ok j, s)
  match s.rest with
  | [] => .error (.placed s.mark "EOF while parsing a value")
  | c :: cs =>
    if c = '"' then (scanQuoted (s.mark.past c) cs).map fun (t, s) => (t.map Json.str, s)
    else if c = 'n' then word .null ['u', 'l', 'l']
    else if c = 't' then word (.bool true) ['r', 'u', 'e']
    else if c = 'f' then word (.bool false) ['a', 'l', 's', 'e']
    else if c = '-' ∨ c.isDigit then scanNumber s
    else .error (.placed s.ahead "expected value")

/-! ## Trees -/

/-- A value with its place.  Each item and member comes with the place where reading stands after
it: at the comma, or past the bracket that closes the whole. -/
inductive Marked where
  | scalar (j : Json) (start stop : Mark)
  | arr (start : Mark) (items : List (Marked × Mark)) (stop : Except Complaint Mark)
  /-- An object; a key comes with the place of the colon. -/
  | obj (start : Mark) (members : List ((String × Mark) × Marked × Mark))
    (stop : Except Complaint Mark)
  /-- A place where the text is no data text. -/
  | broken (c : Complaint)
  /-- A value that cannot be read: what is met by reading it, and what is wrong if it is only passed
  over. -/
  | unreadable (met : Marked) (wrong : Option Complaint)

namespace Marked

/-- The value as it is met by reading it. -/
def met : Marked → Marked
  | .unreadable v _ => v
  | v => v

/-- The result of reading a value: the tree, and what is left unless the text is broken. -/
abbrev Grown := Marked × Except Complaint Source

/-- What is wrong, if anything is. -/
def complaint? {α : Type} : Except Complaint α → Option Complaint
  | .error c => some c
  | .ok _ => none

/-- Goes on after an item or a member: the place where reading stands, what is left, and whether
there is another one. -/
def goOn (close : Char) (missing unclosed : String) (s : Source) :
    Mark × Except Complaint (Bool × Source) :=
  match s.rest with
  | [] => (s.mark, .error (.placed s.mark unclosed))
  | c :: _ =>
    if c = close then (s.drop.mark, .ok (false, s.drop))
    else if c = ',' then
      let next := s.drop.skip
      (s.mark, match next.rest with
        | [] => .error (.placed next.mark "EOF while parsing a value")
        | d :: _ =>
          if d = close then .error (.placed next.ahead "trailing comma") else .ok (true, next))
    else (s.mark, .error (.placed s.ahead missing))

/-- Reads items up to the closing bracket, at most a given number. -/
def itemsFrom (value : Source → Grown) :
    Nat → Source → List (Marked × Mark) × Except Complaint Source
  | 0, s => ([], .ok s)
  | n + 1, s =>
    match value s with
    | (v, .error c) => ([(v, s.mark)], .error c)
    | (v, .ok s) =>
      match goOn ']' "expected `,` or `]`" "EOF while parsing a list" s.skip with
      | (after, .error c) => ([(v, after)], .error c)
      | (after, .ok (false, s)) => ([(v, after)], .ok s)
      | (after, .ok (true, s)) =>
        let (items, stop) := itemsFrom value n s
        ((v, after) :: items, stop)

/-- Reads a key, and the place of the colon after it. -/
def key (s : Source) : Except Complaint ((Except Complaint String × Mark) × Source) := do
  match s.rest with
  | '"' :: cs =>
    let (k, s) ← scanQuoted (s.mark.past '"') cs
    let s := s.skip
    match s.rest with
    | ':' :: _ => return ((k, s.mark), s.drop.skip)
    | [] => throw (.placed s.mark "EOF while parsing an object")
    | _ => throw (.placed s.ahead "expected `:`")
  | _ => throw (.placed s.ahead "key must be a string")

/-- Members up to the first key that cannot be read, with the complaint about that key, and what is
left after all members. -/
abbrev Members :=
  List ((String × Mark) × Marked × Mark) × Option Complaint × Except Complaint Source

/-- Puts a member before others. -/
def addMember (k : Except Complaint String × Mark) (v : Marked) (after : Mark) (r : Members) :
    Members :=
  match k with
  | (.ok name, colon) => (((name, colon), v, after) :: r.1, r.2.1, r.2.2)
  | (.error flaw, _) => ([], some flaw, r.2.2)

/-- Reads members up to the closing brace, at most a given number. -/
def membersFrom (value : Source → Grown) : Nat → Source → Members
  | 0, s => ([], none, .ok s)
  | n + 1, s =>
    match key s with
    | .error c => ([], none, .error c)
    | .ok (k, s) =>
      match value s with
      | (v, .error c) => addMember k v s.mark ([], none, .error c)
      | (v, .ok s) =>
        match goOn '}' "expected `,` or `\x7d`" "EOF while parsing an object" s.skip with
        | (after, .error c) => addMember k v after ([], none, .error c)
        | (after, .ok (false, s)) => addMember k v after ([], none, .ok s)
        | (after, .ok (true, s)) => addMember k v after (membersFrom value n s)

/-- A list that has been read. -/
def ofItems (start : Mark) (r : List (Marked × Mark) × Except Complaint Source) : Grown :=
  (.arr start r.1 (r.2.map Source.mark), r.2)

/-- An object that has been read. -/
def ofMembers (start : Mark) (r : Members) : Grown :=
  match r.2.1 with
  | none => (.obj start r.1 (r.2.2.map Source.mark), r.2.2)
  | some flaw => (.unreadable (.obj start r.1 (.error flaw)) (complaint? r.2.2), r.2.2)

/-- A list or an object that can be read if there is room for it. -/
def within (room : Nat) (s : Source) (g : Grown) : Grown :=
  if room = 0 then
    (.unreadable (.broken (.placed s.ahead "recursion limit exceeded")) (complaint? g.2), g.2)
  else g

/-- Reads a value of at most a given length.  Lists and objects can be read if they are nested no
deeper than there is room. -/
def value : (length room : Nat) → Source → Grown
  | 0, _, s =>
    let c := .placed s.mark "EOF while parsing a value"
    (.broken c, .error c)
  | n + 1, room, s =>
    match s.rest with
    | '[' :: _ => within room s <|
      let inside := s.drop.skip
      match inside.rest with
      | [] => ofItems s.mark ([], .error (.placed inside.mark "EOF while parsing a list"))
      | ']' :: _ => ofItems s.mark ([], .ok inside.drop)
      | _ => ofItems s.mark (itemsFrom (value n (room - 1)) n inside)
    | '{' :: _ => within room s <|
      let inside := s.drop.skip
      match inside.rest with
      | [] => ofMembers s.mark ([], none, .error (.placed inside.mark "EOF while parsing an object"))
      | '}' :: _ => ofMembers s.mark ([], none, .ok inside.drop)
      | _ => ofMembers s.mark (membersFrom (value n (room - 1)) n inside)
    | _ =>
      match scanScalar s with
      | .ok (.ok j, t) => (.scalar j s.mark t.mark, .ok t)
      | .ok (.error flaw, t) => (.unreadable (.broken flaw) none, .ok t)
      | .error c => (.broken c, .error c)

/-- Reads a text: the tree, and the complaint about what follows the value. -/
def ofText (text : String) : Marked × Option Complaint :=
  let s := (Source.ofText text).skip
  match value (s.rest.length + 1) nestingLimit s with
  | (v, .ok s) =>
    let s := s.skip
    (v, if s.rest.isEmpty then none else some (.placed s.ahead "trailing characters"))
  | (v, .error _) => (v, none)

mutual

/-- The first complaint about a tree itself, if it is passed over or if a copy of it is made. -/
def brokenness? (copied : Bool) : Marked → Option Complaint
  | .scalar .. => none
  | .arr _ items stop => (brokenItem? copied items).or (complaint? stop)
  | .obj _ members stop => (brokenMember? copied members).or (complaint? stop)
  | .broken c => some c
  | .unreadable v wrong => if copied then brokenness? copied v else wrong

def brokenItem? (copied : Bool) : List (Marked × Mark) → Option Complaint
  | [] => none
  | (v, _) :: rest => (brokenness? copied v).or (brokenItem? copied rest)

def brokenMember? (copied : Bool) : List ((String × Mark) × Marked × Mark) → Option Complaint
  | [] => none
  | (_, v, _) :: rest => (brokenness? copied v).or (brokenMember? copied rest)

end

end Marked

end VirtualComputer.Json
