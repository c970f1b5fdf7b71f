import VirtualComputer.Text.Split

/-!
# Wrapping lines

A message is set in lines of a given width.  Tabs count as two spaces, line breaks are kept, a
line takes as many words as fit, and only a word wider than a line is broken.
-/

namespace VirtualComputer.Text

/-- A paragraph part way through: the lines that are finished, last first, and the line being
filled, which is empty at first. -/
structure Filling where
  finished : List (List Char)
  line : Option (List Char)

/-- Cuts a word into pieces of the given width; the last piece is apart and may be shorter. -/
def chop (width : Nat) (word : List Char) : List (List Char) × List Char :=
  word.foldl
    (fun (pieces, piece) c =>
      if piece.length < width then (pieces, piece ++ [c]) else (pieces ++ [piece], [c]))
    ([], [])

/-- Adds a word to the line if it fits, and starts a new line with it otherwise. -/
def Filling.add (width : Nat) (f : Filling) (word : List Char) : Filling :=
  let extended := match f.line with
    | none => word
    | some line => line ++ ' ' :: word
  if extended.length ≤ width then ⟨f.finished, some extended⟩
  else
    let (pieces, piece) := chop width word
    ⟨pieces.reverse ++ f.line.toList ++ f.finished, some piece⟩

/-- The lines of one paragraph. -/
def wrapParagraph (width : Nat) (paragraph : List Char) : List (List Char) :=
  let f := (splitOn ' ' paragraph).foldl (Filling.add width) ⟨[], none⟩
  (f.line.getD [] :: f.finished).reverse

/-- The text with every tab replaced by two spaces. -/
def expandTabs (cs : List Char) : List Char :=
  cs.flatMap fun c => if c = '\t' then [' ', ' '] else [c]

/-- The lines of a message; a width of zero counts as one. -/
def wrap (message : String) (width : Nat) : List String :=
  ((splitOn '\n' (expandTabs message.toList)).flatMap (wrapParagraph (max width 1))).map
    String.ofList

end VirtualComputer.Text
