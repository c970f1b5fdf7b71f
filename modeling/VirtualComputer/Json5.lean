import VirtualComputer.Decimal.Numeral
import VirtualComputer.Json.Token
import VirtualComputer.Settings.Value
import VirtualComputer.Text.Blank

/-!
# JSON5 texts

Data texts with comments, keys without quotes, strings in single quotes, commas at the end of lists
and objects, and more spellings of numbers.  They are read as raw settings.
-/

namespace VirtualComputer.Json5

/-- Reads something at the start of a text. -/
abbrev Reading (α : Type) := List Char → Option (α × List Char)

/-! ## Blanks -/

def isLineEnd (c : Char) : Bool :=
  c = '\n' || c = '\r' || c = '\u2028' || c = '\u2029'

def isBlank (c : Char) : Bool :=
  Text.isSpace c || isLineEnd c || c = '\t' || c.toNat = 11 || c.toNat = 12 || c = '\uFEFF'

/-- The rest after a comment of several lines. -/
def closeComment? : List Char → Option (List Char)
  | '*' :: '/' :: cs => some cs
  | _ :: cs => closeComment? cs
  | [] => none

/-- The rest after blanks and comments, of which there are at most so many. -/
def skip : Nat → List Char → List Char
  | 0, cs => cs
  | n + 1, cs =>
    match cs.dropWhile isBlank with
    | '/' :: '/' :: rest => skip n (rest.dropWhile fun c => !isLineEnd c)
    | '/' :: '*' :: rest =>
      match closeComment? rest with
      | some rest => skip n rest
      | none => '/' :: '*' :: rest
    | rest => rest

/-- The rest after all blanks and comments. -/
def skipAll (cs : List Char) : List Char :=
  skip cs.length cs

/-! ## Strings -/

/-- The number of some hexadecimal digits at the start of a text, and the rest. -/
def hex? (count : Nat) (cs : List Char) : Option (Nat × List Char) := do
  guard (count ≤ cs.length)
  let values ← (cs.take count).mapM Json.Lexer.hexValue?
  return (values.foldl (fun n d => 16 * n + d) 0, cs.drop count)

/-- The character of an escape of four digits, which may be two halves of a pair. -/
def unicode? : Reading Char := fun cs => do
  let (n, rest) ← hex? 4 cs
  if 0xD800 ≤ n ∧ n < 0xDC00 then
    match rest with
    | '\\' :: 'u' :: rest =>
      let (m, rest) ← hex? 4 rest
      guard (0xDC00 ≤ m ∧ m < 0xE000)
      return (Char.ofNat (0x10000 + (n - 0xD800) * 0x400 + (m - 0xDC00)), rest)
    | _ => none
  else if n.isValidChar then some (Char.ofNat n, rest) else none

/-- What the characters after a backslash stand for; the end of a line stands for nothing. -/
def escape? : Reading (List Char)
  | [] => none
  | '\r' :: '\n' :: cs => some ([], cs)
  | c :: cs =>
    if isLineEnd c then some ([], cs)
    else match c with
      | 'b' => some ([Char.ofNat 8], cs)
      | 'f' => some ([Char.ofNat 12], cs)
      | 'n' => some (['\n'], cs)
      | 'r' => some (['\r'], cs)
      | 't' => some (['\t'], cs)
      | 'v' => some ([Char.ofNat 11], cs)
      | '0' => some ([Char.ofNat 0], cs)
      | 'x' => (hex? 2 cs).map fun (n, rest) => ([Char.ofNat n], rest)
      | 'u' => (unicode? cs).map fun (c, rest) => ([c], rest)
      | c => if c.isDigit then none else some ([c], cs)

/-- The rest of a string, of at most so many characters. -/
def string? (quote : Char) : Nat → Reading (List Char)
  | _, [] | 0, _ => none
  | n + 1, c :: cs => do
    if c = quote then return ([], cs)
    guard (c ≠ '\n' ∧ c ≠ '\r')
    let (text, rest) ← if c = '\\' then escape? cs else some ([c], cs)
    let (more, rest) ← string? quote n rest
    return (text ++ more, rest)

/-! ## Keys -/

/-- Whether a character may begin a key without quotes; beyond the first code points every one may
that is no blank. -/
def isKeyStart (c : Char) : Bool :=
  c.isAlpha || c = '$' || c = '_' || (127 < c.toNat && !isBlank c)

/-- The characters of a key without quotes, at most so many. -/
def keyChars? : (length : Nat) → (first : Bool) → Reading (List Char)
  | 0, _, cs => some ([], cs)
  | n + 1, _, '\\' :: 'u' :: cs => do
    let (c, rest) ← unicode? cs
    let (more, rest) ← keyChars? n false rest
    return (c :: more, rest)
  | n + 1, first, c :: cs =>
    if isKeyStart c || (!first && c.isDigit) then do
      let (more, rest) ← keyChars? n false cs
      return (c :: more, rest)
    else some ([], c :: cs)
  | _, _, [] => some ([], [])

/-- A key, with quotes or without. -/
def key? : Reading String
  | [] => none
  | c :: cs =>
    if c = '"' ∨ c = '\'' then
      (string? c (cs.length + 1) cs).map fun (text, rest) => (String.ofList text, rest)
    else do
      let (text, rest) ← keyChars? (cs.length + 1) true (c :: cs)
      if text.isEmpty then none else some (String.ofList text, rest)

/-! ## Numbers -/

/-- The digits of an exponent after its mark, as they are written, and the rest; nothing if there are
none. -/
def exponent (cs : List Char) : List Char × List Char :=
  match cs with
  | e :: rest =>
    let sign := rest.takeWhile fun c => c = '+' || c = '-'
    let digits := (rest.drop sign.length).takeWhile Char.isDigit
    if (e = 'e' ∨ e = 'E') ∧ sign.length ≤ 1 ∧ !digits.isEmpty then
      (e :: (sign ++ digits), rest.drop (sign.length + digits.length))
    else ([], cs)
  | [] => ([], [])

/-- A numeral in base ten, as it is written, and the rest. -/
def decimal? (cs : List Char) : Option (List Char × List Char) :=
  let digits := cs.takeWhile Char.isDigit
  let whole := if digits.head? = some '0' then ['0'] else digits
  match cs.drop whole.length with
  | '.' :: rest =>
    let fraction := rest.takeWhile Char.isDigit
    if whole.isEmpty ∧ fraction.isEmpty then none
    else
      let (power, rest) := exponent (rest.drop fraction.length)
      some (whole ++ '.' :: fraction ++ power, rest)
  | rest =>
    if whole.isEmpty then none
    else
      let (power, rest) := exponent rest
      some (whole ++ power, rest)

/-- The number that a numeral in base ten denotes, which may not be too large. -/
def decimalValue? (text : String) : Option Setting :=
  if text.toList.any fun c => c = '.' || c = 'e' || c = 'E' then
    (Decimal.float? text).bind fun x => if x.isFinite then some (.float x) else none
  else (Decimal.integer? text).bind fun i =>
    if Word.signed64.holds i then some (.int i) else none

/-- A number.  One in base sixteen has no sign and fits 32 bits. -/
def number? : Reading Setting := fun cs =>
  let sign := (cs.take 1).takeWhile fun c => c = '+' || c = '-'
  match cs.drop sign.length with
  | '0' :: x :: rest =>
    let digits := rest.takeWhile fun c => (Json.Lexer.hexValue? c).isSome
    if (x = 'x' ∨ x = 'X') ∧ !digits.isEmpty then do
      let (n, _) ← hex? digits.length rest
      guard (sign.isEmpty ∧ Word.unsigned32.holds n)
      return (.int n, rest.drop digits.length)
    else plain sign ('0' :: x :: rest)
  | 'I' :: 'n' :: 'f' :: 'i' :: 'n' :: 'i' :: 't' :: 'y' :: rest =>
    if sign = ['+'] then none
    else some (.float (if sign.isEmpty then 1.0 / 0.0 else -1.0 / 0.0), rest)
  | 'N' :: 'a' :: 'N' :: rest => if sign = ['+'] then none else some (.float (0.0 / 0.0), rest)
  | rest => plain sign rest
where
  /-- A number in base ten after its sign. -/
  plain (sign cs : List Char) : Option (Setting × List Char) := do
    let (text, rest) ← decimal? cs
    return (← decimalValue? (String.ofList (sign ++ text)), rest)

/-! ## Values -/

/-- The items of a list after its opening bracket, at most so many. -/
def items? (value : Reading Setting) : Nat → Reading (List Setting)
  | 0, _ => none
  | n + 1, cs => do
    let (v, rest) ← value cs
    match skipAll rest with
    | ',' :: rest =>
      match skipAll rest with
      | ']' :: rest => return ([v], rest)
      | rest =>
        let (vs, rest) ← items? value n rest
        return (v :: vs, rest)
    | ']' :: rest => return ([v], rest)
    | _ => none

/-- The members of an object after its opening brace, at most so many. -/
def members? (value : Reading Setting) : Nat → Reading (List (String × Setting))
  | 0, _ => none
  | n + 1, cs => do
    let (k, rest) ← key? cs
    match skipAll rest with
    | ':' :: rest =>
      let (v, rest) ← value (skipAll rest)
      match skipAll rest with
      | ',' :: rest =>
        match skipAll rest with
        | '}' :: rest => return ([(k, v)], rest)
        | rest =>
          let (members, rest) ← members? value n rest
          return ((k, v) :: members, rest)
      | '}' :: rest => return ([(k, v)], rest)
      | _ => none
    | _ => none

/-- A value of at most the given depth. -/
def value? : Nat → Reading Setting
  | 0, _ => none
  | n + 1, cs =>
    match cs with
    | '[' :: rest =>
      match skipAll rest with
      | ']' :: rest => some (.list [], rest)
      | rest => (items? (value? n) rest.length rest).map fun (vs, rest) => (.list vs, rest)
    | '{' :: rest =>
      match skipAll rest with
      | '}' :: rest => some (.table [], rest)
      | rest => (members? (value? n) rest.length rest).map fun (members, rest) =>
        (.table (Entries.ofList members), rest)
    | 'n' :: 'u' :: 'l' :: 'l' :: rest => some (.nothing, rest)
    | 't' :: 'r' :: 'u' :: 'e' :: rest => some (.bool true, rest)
    | 'f' :: 'a' :: 'l' :: 's' :: 'e' :: rest => some (.bool false, rest)
    | c :: rest =>
      if c = '"' ∨ c = '\'' then
        (string? c (rest.length + 1) rest).map fun (text, rest) => (.str (String.ofList text), rest)
      else number? (c :: rest)
    | [] => none

/-- The value that a text denotes. -/
def read? (text : String) : Option Setting := do
  let cs := skipAll text.toList
  let (v, rest) ← value? (cs.length + 1) cs
  if (skipAll rest).isEmpty then some v else none

end VirtualComputer.Json5
