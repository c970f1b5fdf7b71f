/-!
# Places in YAML texts

A cursor is what is left of a text, with the place where it begins: a YAML text means what it does by
lines and columns.
-/

namespace VirtualComputer.Yaml

/-! ## Characters -/

def isBlank (c : Char) : Bool :=
  c = ' ' || c = '\t'

def isBreak (c : Char) : Bool :=
  c = '\n' || c = '\r'

/-- Whether a character ends or parts collections that are written in brackets. -/
def isBracket (c : Char) : Bool :=
  c = ',' || c = '[' || c = ']' || c = '{' || c = '}'

/-- Whether a character may stand in the name of a tag handle. -/
def isWordChar (c : Char) : Bool :=
  c.isAlphanum || c = '_' || c = '-'

/-- Whether a text begins with white space or is empty. -/
def endsWord (cs : List Char) : Bool :=
  cs.head?.all fun c => isBlank c || isBreak c

/-- Whether a text begins with what ends or parts collections in brackets. -/
def beginsBracket (cs : List Char) : Bool :=
  cs.head?.any isBracket

/-! ## Cursors -/

/-- What is left of a text, and where that begins. -/
structure Cursor where
  rest : List Char
  index : Nat
  line : Nat
  column : Nat
  /-- Whether only blanks stand before it on its line. -/
  leading : Bool
  deriving Repr

namespace Cursor

/-- The start of a text. -/
def start (cs : List Char) : Cursor :=
  ⟨cs, 0, 0, 0, true⟩

/-- The place after the next character or the next end of a line. -/
def step (p : Cursor) : Cursor :=
  match p.rest with
  | [] => p
  | '\r' :: '\n' :: cs => ⟨cs, p.index + 2, p.line + 1, 0, true⟩
  | c :: cs =>
    if isBreak c then ⟨cs, p.index + 1, p.line + 1, 0, true⟩
    else ⟨cs, p.index + 1, p.line, p.column + 1, p.leading && isBlank c⟩

/-- The place after so many steps. -/
def drop : Nat → Cursor → Cursor
  | 0, p => p
  | n + 1, p => drop n p.step

/-- The place after the characters of a kind, among which no line ends. -/
def dropWhile (f : Char → Bool) (p : Cursor) : Cursor :=
  p.drop (p.rest.takeWhile fun c => f c && !isBreak c).length

/-- Whether the text or the line ends here. -/
def atLineEnd (p : Cursor) : Bool :=
  p.rest.head?.all isBreak

/-- Whether a line consists of, or begins with, three of a character and white space. -/
def atMark (c : Char) (p : Cursor) : Bool :=
  p.column = 0 && p.rest.take 3 = [c, c, c] && endsWord (p.rest.drop 3)

/-- Whether a document begins or ends here. -/
def atDocumentMark (p : Cursor) : Bool :=
  p.atMark '-' || p.atMark '.'

/-- The blanks here, and the place after them and after a comment, which needs a blank before it. -/
def restOfLine? (p : Cursor) : Option (List Char × Cursor) :=
  let blanks := p.rest.takeWhile isBlank
  let p := p.drop blanks.length
  if p.rest.head? = some '#' then
    if blanks.isEmpty then none else some (blanks, p.dropWhile fun _ => true)
  else some (blanks, p)

/-- The place after a tab, which cannot indent what belongs to a column. -/
def afterTab? (column : Int) (p : Cursor) : Option Cursor :=
  if p.leading && p.column < column then
    p.restOfLine?.bind fun (_, p) => if p.atLineEnd then some p else none
  else some p.step

/-- The place after blanks, comments and ends of lines, and whether there were any of those; there
are at most so many.  What follows a tab is to be said. -/
def skip? (tab? : Cursor → Option Cursor) : Nat → Cursor → Option (Cursor × Bool)
  | 0, p => some (p, false)
  | n + 1, p =>
    match p.rest with
    | [] => some (p, false)
    | c :: _ =>
      if isBreak c then (skip? tab? n p.step).map fun (p, _) => (p, true)
      else if c = '#' then skip? tab? n (p.dropWhile fun _ => true)
      else if c = '\t' then do skip? tab? n (← tab? p)
      else if c = ' ' then skip? tab? n p.step
      else some (p, false)

end Cursor

end VirtualComputer.Yaml
