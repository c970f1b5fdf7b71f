import VirtualComputer.Grammar.Matcher

/-!
# Lines of a text

The offsets at which the lines of a text begin, and the line and column of any byte of it, looked up among them.  A
cursor carries its line and column along instead.
-/

namespace VirtualComputer.Grammar

/-- The offsets behind the line breaks of a text that begins at the given one. -/
def breaks : Nat → List Char → List Nat
  | _, [] => []
  | offset, c :: cs =>
    let next := offset + c.utf8Size
    if c = '\n' then next :: breaks next cs else breaks next cs

/-- The offset of the first character of each line. -/
def lineStarts (text : String) : List Nat :=
  0 :: breaks 0 text.toList

/-- How many entries come before the first one that does not satisfy a condition. -/
def partitionPoint (p : Nat → Bool) (xs : List Nat) : Nat :=
  (xs.takeWhile p).length

/-- What follows some bytes of a text, unless these end within a character. -/
def dropBytes? : Nat → List Char → Option (List Char)
  | 0, cs => some cs
  | _ + 1, [] => none
  | n + 1, c :: cs => if c.utf8Size ≤ n + 1 then dropBytes? (n + 1 - c.utf8Size) cs else none

/-- The characters that the first bytes of a text make up, unless these end within a character. -/
def takeBytes? : Nat → List Char → Option (List Char)
  | 0, _ => some []
  | _ + 1, [] => none
  | n + 1, c :: cs =>
    if c.utf8Size ≤ n + 1 then (takeBytes? (n + 1 - c.utf8Size) cs).map (c :: ·) else none

/-- The part of a text between two of its bytes. -/
def slice? (start stop : Nat) (cs : List Char) : Option (List Char) :=
  if start ≤ stop then (dropBytes? start cs).bind (takeBytes? (stop - start)) else none

/-- The place of a byte: the last line that begins before it or there, and the characters since. -/
def placeAt (text : String) (offset : Nat) : Place :=
  let starts := lineStarts text
  let line := partitionPoint (· ≤ offset) starts - 1
  let lineStart := starts[line]?.getD 0
  ⟨offset, line, ((slice? lineStart offset text.toList).map List.length).getD 0⟩

/-- The range of a text from one byte to another. -/
def spanAt (text : String) (start stop : Nat) : Span :=
  let place := placeAt text start
  ⟨start, stop, place.line, place.column⟩

end VirtualComputer.Grammar
