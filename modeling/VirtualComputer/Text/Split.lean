/-!
# Splitting texts

`splitOn` cuts a text at every occurrence of a character.  There is always at least one piece, and
the pieces joined with the character are the text.
-/

namespace VirtualComputer.Text

/-- The pieces of a text between the occurrences of a character. -/
def splitOn (sep : Char) : List Char → List (List Char)
  | [] => [[]]
  | c :: cs =>
    if c = sep then [] :: splitOn sep cs
    else match splitOn sep cs with
      | piece :: pieces => (c :: piece) :: pieces
      | [] => [[c]]

/-- The pieces of a string between the occurrences of a character. -/
def split (sep : Char) (s : String) : List String :=
  (splitOn sep s.toList).map String.ofList

/-- The texts joined with a character between them. -/
def joinWith (sep : Char) : List (List Char) → List Char
  | [] => []
  | [piece] => piece
  | piece :: pieces => piece ++ sep :: joinWith sep pieces

/-- What stands before and after the first occurrence of a character. -/
def cut? (sep : Char) (cs : List Char) : Option (List Char × List Char) :=
  match cs.dropWhile (· ≠ sep) with
  | [] => none
  | _ :: rest => some (cs.takeWhile (· ≠ sep), rest)

end VirtualComputer.Text
