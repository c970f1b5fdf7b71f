import VirtualComputer.Decimal.Shortest
import VirtualComputer.Json.Basic

/-!
# Writing data texts

`Json.write` gives the compact text of a value: no blanks, members in their order.  In strings
only the quote, the backslash and control characters are escaped, and what has no text of its own
is written as null.
-/

namespace VirtualComputer.Json

/-- The lower-case hexadecimal digit of a number below sixteen. -/
def hexDigit (n : Nat) : Char :=
  Nat.digitChar n

/-- How one character stands inside a quoted string. -/
def escape (c : Char) : List Char :=
  if c = '"' then ['\\', '"']
  else if c = '\\' then ['\\', '\\']
  else if c = '\n' then ['\\', 'n']
  else if c = '\r' then ['\\', 'r']
  else if c = '\t' then ['\\', 't']
  else if c.toNat = 8 then ['\\', 'b']
  else if c.toNat = 12 then ['\\', 'f']
  else if c.toNat < 32 then
    ['\\', 'u', '0', '0', hexDigit (c.toNat / 16), hexDigit (c.toNat % 16)]
  else [c]

/-- A quoted string. -/
def quote (s : String) : List Char :=
  '"' :: s.toList.flatMap escape ++ ['"']

/-- A floating number, or null for one that has no decimal. -/
def writeFloat (x : Float) : List Char :=
  ((Decimal.stored? x).getD "null").toList

mutual

/-- The compact text of a value. -/
def write : Json → List Char
  | .null => ['n', 'u', 'l', 'l']
  | .bool true => ['t', 'r', 'u', 'e']
  | .bool false => ['f', 'a', 'l', 's', 'e']
  | .int i => (Decimal.integerText i).toList
  | .float x => writeFloat x
  | .str s => quote s
  | .arr items => '[' :: writeItems items
  | .obj members => '{' :: writeMembers members
  | .unusable => ['n', 'u', 'l', 'l']

/-- The items of a list with their separators, up to the closing bracket. -/
def writeItems : List Json → List Char
  | [] => [']']
  | [j] => write j ++ [']']
  | j :: rest => write j ++ ',' :: writeItems rest

/-- The members of an object with their separators, up to the closing brace. -/
def writeMembers : List (String × Json) → List Char
  | [] => ['}']
  | [(k, j)] => quote k ++ ':' :: write j ++ ['}']
  | (k, j) :: rest => quote k ++ ':' :: write j ++ ',' :: writeMembers rest

end

/-- The compact text of a value, as a string. -/
def text (j : Json) : String :=
  String.ofList j.write

end VirtualComputer.Json
