import VirtualComputer.Decimal.Numeral
import VirtualComputer.Json5
import VirtualComputer.Settings.Value

/-!
# RON texts

Values in the notation of structures: parentheses around named fields or around items, braces around
keys with values, brackets around lists, and names in front that say nothing.  They are read as raw
settings.
-/

namespace VirtualComputer.Ron

/-- Reads something at the start of a text. -/
abbrev Reading (α : Type) := List Char → Option (α × List Char)

/-! ## Blanks -/

def isBlank (c : Char) : Bool :=
  c = ' ' || c = '\n' || c = '\t' || c = '\r'

/-- The rest after a comment of several lines, in which there may be others. -/
def closeComment? : (depth : Nat) → List Char → Option (List Char)
  | depth, '/' :: '*' :: cs => closeComment? (depth + 1) cs
  | 0, '*' :: '/' :: cs => some cs
  | depth + 1, '*' :: '/' :: cs => closeComment? depth cs
  | depth, _ :: cs => closeComment? depth cs
  | _, [] => none

/-- The rest after blanks and comments, of which there are at most so many. -/
def skip : Nat → List Char → List Char
  | 0, cs => cs
  | n + 1, cs =>
    match cs.dropWhile isBlank with
    | '/' :: '/' :: rest => skip n (rest.dropWhile (· ≠ '\n'))
    | '/' :: '*' :: rest =>
      match closeComment? 0 rest with
      | some rest => skip n rest
      | none => '/' :: '*' :: rest
    | rest => rest

/-- The rest after all blanks and comments. -/
def skipAll (cs : List Char) : List Char :=
  skip cs.length cs

/-- The rest after a character and the blanks after it. -/
def after? (c : Char) : List Char → Option (List Char)
  | d :: cs => if c = d then some (skipAll cs) else none
  | [] => none

/-! ## Names and strings -/

def isNameStart (c : Char) : Bool := c.isAlpha || c = '_'

def isNameChar (c : Char) : Bool := c.isAlphanum || c = '_'

/-- A name. -/
def name? : Reading String
  | [] => none
  | c :: cs =>
    if isNameStart c then
      some (String.ofList (c :: cs.takeWhile isNameChar), cs.dropWhile isNameChar)
    else none

/-- The character that an escape after a backslash stands for. -/
def escape? : Reading Char
  | '"' :: cs => some ('"', cs)
  | '\'' :: cs => some ('\'', cs)
  | '\\' :: cs => some ('\\', cs)
  | 'n' :: cs => some ('\n', cs)
  | 'r' :: cs => some ('\r', cs)
  | 't' :: cs => some ('\t', cs)
  | '0' :: cs => some (Char.ofNat 0, cs)
  | 'x' :: cs => (Json5.hex? 2 cs).map fun (n, rest) => (Char.ofNat n, rest)
  | 'u' :: '{' :: cs => do
    let digits := cs.takeWhile (· ≠ '}')
    guard (!digits.isEmpty && digits.length ≤ 6)
    let (n, rest) ← Json5.hex? digits.length cs
    guard n.isValidChar
    return (Char.ofNat n, rest.drop 1)
  | _ => none

/-- The rest of a string, of at most so many characters. -/
def string? : Nat → Reading (List Char)
  | _, [] | 0, _ => none
  | n + 1, c :: cs => do
    if c = '"' then return ([], cs)
    let (c, rest) ← if c = '\\' then escape? cs else some (c, cs)
    let (more, rest) ← string? n rest
    return (c :: more, rest)

/-- The rest of a string without escapes, which ends with a quote and so many hash signs. -/
def raw? (hashes : Nat) : Reading (List Char)
  | [] => none
  | c :: cs =>
    if c = '"' ∧ (cs.take hashes).length = hashes ∧ (cs.take hashes).all (· = '#') then
      some ([], cs.drop hashes)
    else (raw? hashes cs).map fun (text, rest) => (c :: text, rest)

/-- A string without escapes, after its mark. -/
def rawString? (cs : List Char) : Option (List Char × List Char) :=
  let hashes := (cs.takeWhile (· = '#')).length
  match cs.drop hashes with
  | '"' :: rest => raw? hashes rest
  | _ => none

/-! ## Numbers -/

/-- A whole number in a base, with underscores between its digits. -/
def based? (base : Nat) (cs : List Char) : Option Nat := do
  let digits := cs.filter (· ≠ '_')
  guard (!digits.isEmpty)
  let values ← digits.mapM Json.Lexer.hexValue?
  guard (values.all (· < base))
  return values.foldl (fun n d => base * n + d) 0

/-- The magnitude of a whole number. -/
def magnitude? : List Char → Option Nat
  | '0' :: 'x' :: cs => based? 16 cs
  | '0' :: 'o' :: cs => based? 8 cs
  | '0' :: 'b' :: cs => based? 2 cs
  | cs => based? 10 cs

/-- The number that a word denotes. -/
def numberOf? (word : List Char) : Option Setting :=
  let (sign, digits) := Decimal.Numeral.takeSign word
  let based := digits.take 2 = ['0', 'x'] ∨ digits.take 2 = ['0', 'o'] ∨ digits.take 2 = ['0', 'b']
  if !based && word.any fun c => c = '.' || c = 'e' || c = 'E' then
    (Decimal.float? (String.ofList (word.filter (· ≠ '_')))).map .float
  else do
    let n : Int ← magnitude? digits
    let i := if sign = some true then -n else n
    if Word.signed64.holds i then some (.int i) else none

/-- A number. -/
def number? : Reading Setting := fun cs =>
  let isWordChar (c : Char) : Bool := c.isAlphanum || c = '_' || c = '.' || c = '+' || c = '-'
  (numberOf? (cs.takeWhile isWordChar)).map fun v => (v, cs.dropWhile isWordChar)

/-! ## Values -/

/-- The parts of something in brackets up to the closing one, with commas between them and perhaps
after the last; there are at most so many. -/
def parts? {α : Type} (close : Char) (part : Reading α) : Nat → Reading (List α)
  | 0, _ => none
  | n + 1, cs =>
    match after? close cs with
    | some _ => some ([], cs.drop 1)
    | none => do
      let (a, rest) ← part cs
      let rest := skipAll rest
      match after? ',' rest with
      | some rest =>
        let (more, rest) ← parts? close part n rest
        return (a :: more, rest)
      | none => if rest.head? = some close then return ([a], rest.drop 1) else none

/-- A named field. -/
def field? (value : Reading Setting) : Reading (String × Setting) := fun cs => do
  let (k, rest) ← name? cs
  let (v, rest) ← value (← after? ':' (skipAll rest))
  return ((k, v), rest)

/-- A key, which is a string, with its value. -/
def keyed? (value : Reading Setting) : Reading (String × Setting) := fun cs => do
  let (k, rest) ← value cs
  let (v, rest) ← value (← after? ':' (skipAll rest))
  match k with
  | .str k => return ((k, v), rest)
  | _ => none

/-- Whether a field begins here. -/
def beginsField (cs : List Char) : Bool :=
  (name? cs).any fun (_, rest) => (after? ':' (skipAll rest)).isSome

/-- What stands in parentheses after the opening one: nothing, fields or items. -/
def group? (value : Reading Setting) : Reading Setting := fun cs =>
  let cs := skipAll cs
  if beginsField cs then
    (parts? ')' (field? value) (cs.length + 1) cs).map fun (fields, rest) =>
      (.table (Entries.ofList fields), rest)
  else (parts? ')' value (cs.length + 1) cs).map fun (items, rest) => (.list items, rest)

/-- What a name begins: a word, an optional value, a string without escapes, or a structure. -/
def named? (value : Reading Setting) (name : String) (rest : List Char) :
    Option (Setting × List Char) :=
  if name = "true" then some (.bool true, rest)
  else if name = "false" then some (.bool false, rest)
  else if name = "None" then some (.nothing, rest)
  else if name = "inf" then some (.float (1.0 / 0.0), rest)
  else if name = "NaN" then some (.float (0.0 / 0.0), rest)
  else if name = "Some" then do
    let (v, rest) ← value (← after? '(' (skipAll rest))
    let (_, rest) ← (after? ')' (skipAll rest)).map fun rest => ((), rest)
    return (v, rest)
  else match rest, skipAll rest with
    | '"' :: _, _ | '#' :: _, _ =>
      if name = "r" then
        (rawString? rest).map fun (text, rest) => (.str (String.ofList text), rest)
      else none
    | _, '(' :: inner => group? value inner
    | rest, _ => some (.nothing, rest)

/-- A value of at most the given depth. -/
def value? : Nat → Reading Setting
  | 0, _ => none
  | n + 1, cs =>
    match cs with
    | [] => none
    | '(' :: ')' :: rest => some (.nothing, rest)
    | '(' :: rest => group? (value? n) rest
    | '[' :: rest =>
      (parts? ']' (value? n) (rest.length + 1) (skipAll rest)).map fun (items, rest) =>
        (.list items, rest)
    | '{' :: rest =>
      (parts? '}' (keyed? (value? n)) (rest.length + 1) (skipAll rest)).map fun (es, rest) =>
        (.table (Entries.ofList es), rest)
    | '"' :: rest => (string? (rest.length + 1) rest).map fun (text, rest) =>
      (.str (String.ofList text), rest)
    | '\'' :: '\\' :: rest => do
      let (c, rest) ← escape? rest
      if rest.head? = some '\'' then some (.str c.toString, rest.drop 1) else none
    | '\'' :: c :: '\'' :: rest => some (.str c.toString, rest)
    | '-' :: 'i' :: 'n' :: 'f' :: rest => some (.float (-1.0 / 0.0), rest)
    | c :: rest =>
      match name? (c :: rest) with
      | some (name, rest) => named? (value? n) name rest
      | none => number? (c :: rest)

/-- The value that a text denotes. -/
def read? (text : String) : Option Setting := do
  let cs := skipAll text.toList
  let (v, rest) ← value? (cs.length + 1) cs
  if (skipAll rest).isEmpty then some v else none

end VirtualComputer.Ron
