import VirtualComputer.Json.Writer

/-!
# Data texts over several lines

`Json.layout` sets every item and member on a line of its own, two blanks deeper than the brackets
around it.  Empty lists and objects stay in one piece.
-/

namespace VirtualComputer.Json

/-- The begin of a line at a depth. -/
def newLine (depth : Nat) : List Char :=
  '\n' :: List.replicate (2 * depth) ' '

mutual

/-- The text of a value whose first line has begun at a depth. -/
def layoutAt (depth : Nat) : Json → List Char
  | .arr [] => ['[', ']']
  | .arr (j :: rest) => '[' :: newLine (depth + 1) ++ layoutAt (depth + 1) j ++ layoutItems depth rest
  | .obj [] => ['{', '}']
  | .obj ((k, j) :: rest) =>
    '{' :: newLine (depth + 1) ++ quote k ++ [':', ' '] ++ layoutAt (depth + 1) j ++
      layoutMembers depth rest
  | j => write j

/-- The items of a list after the first, and the closing bracket. -/
def layoutItems (depth : Nat) : List Json → List Char
  | [] => newLine depth ++ [']']
  | j :: rest => ',' :: newLine (depth + 1) ++ layoutAt (depth + 1) j ++ layoutItems depth rest

/-- The members of an object after the first, and the closing brace. -/
def layoutMembers (depth : Nat) : List (String × Json) → List Char
  | [] => newLine depth ++ ['}']
  | (k, j) :: rest =>
    ',' :: newLine (depth + 1) ++ quote k ++ [':', ' '] ++ layoutAt (depth + 1) j ++
      layoutMembers depth rest

end

/-- The text of a value over several lines, as a string. -/
def layout (j : Json) : String :=
  String.ofList (layoutAt 0 j)

end VirtualComputer.Json
