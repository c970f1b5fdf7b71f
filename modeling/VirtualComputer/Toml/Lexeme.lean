import VirtualComputer.Toml.Scalar

/-!
# Lexemes of TOML texts

Blanks, comments, quoted strings, keys and unquoted words.  Each reader takes a text and gives what
it has read and the rest.
-/

namespace VirtualComputer.Toml

/-- Reads something at the start of a text. -/
abbrev Reading (α : Type) := List Char → Option (α × List Char)

/-! ## Blanks -/

def isBlank (c : Char) : Bool :=
  c = ' ' || c = '\t'

/-- Whether a character may stand in comments and strings: every one but control characters, of
which only the tab may. -/
def isPlain (c : Char) : Bool :=
  c = '\t' || (32 ≤ c.toNat && c.toNat ≠ 127)

/-- The rest after blanks. -/
def skipBlanks (cs : List Char) : List Char :=
  cs.dropWhile isBlank

/-- The rest after a comment, if there is one; a comment runs to the end of the line. -/
def skipComment : List Char → List Char
  | '#' :: cs => cs.dropWhile isPlain
  | cs => cs

/-- The rest after the end of a line. -/
def newline? : List Char → Option (List Char)
  | '\n' :: cs => some cs
  | '\r' :: '\n' :: cs => some cs
  | _ => none

/-- The rest after what may stand at the end of a line, and the end itself. -/
def endLine? (cs : List Char) : Option (List Char) :=
  match skipComment (skipBlanks cs) with
  | [] => some []
  | rest => newline? rest

/-- The rest after blanks, comments and ends of lines, of which there are at most so many. -/
def skipLines : Nat → List Char → List Char
  | 0, cs => cs
  | n + 1, cs =>
    let rest := skipComment (skipBlanks cs)
    match newline? rest with
    | some rest => skipLines n rest
    | none => rest

/-! ## Strings -/

/-- The character with a number written in hexadecimal digits, if there is one. -/
def charOf? (ds : List Char) : Option Char :=
  let n := ds.foldl (fun n c => 16 * n + digitValue c) 0
  if ds.all (fun c => digitValue c < 16) ∧ n.isValidChar then some (Char.ofNat n) else none

/-- The character that an escape after a backslash stands for, and the rest. -/
def escape? : Reading Char
  | 'b' :: cs => some (Char.ofNat 8, cs)
  | 't' :: cs => some ('\t', cs)
  | 'n' :: cs => some ('\n', cs)
  | 'f' :: cs => some (Char.ofNat 12, cs)
  | 'r' :: cs => some ('\r', cs)
  | '"' :: cs => some ('"', cs)
  | '\\' :: cs => some ('\\', cs)
  | 'u' :: cs => if cs.length < 4 then none else (charOf? (cs.take 4)).map fun c => (c, cs.drop 4)
  | 'U' :: cs => if cs.length < 8 then none else (charOf? (cs.take 8)).map fun c => (c, cs.drop 8)
  | _ => none

/-- The rest of a string on one line with escapes, of at most so many characters. -/
def basic? : Nat → Reading (List Char)
  | 0, _ => none
  | _, [] => none
  | n + 1, c :: cs =>
    if c = '"' then some ([], cs)
    else if c = '\\' then do
      let (c, rest) ← escape? cs
      let (text, rest) ← basic? n rest
      return (c :: text, rest)
    else if isPlain c then do
      let (text, rest) ← basic? n cs
      return (c :: text, rest)
    else none

/-- The rest of a string on one line without escapes. -/
def literal? : Reading (List Char)
  | [] => none
  | c :: cs =>
    if c = '\'' then some ([], cs)
    else if isPlain c then (literal? cs).map fun (text, rest) => (c :: text, rest)
    else none

/-- The end of a string of several lines: three quotes, before which two more may be part of the
string. -/
def closing? (quote : Char) (cs : List Char) : Option (List Char × List Char) :=
  let run := (cs.takeWhile (· = quote)).length
  if run < 3 then none
  else
    let extra := min (run - 3) 2
    some (List.replicate extra quote, cs.drop (3 + extra))

/-- The rest after a backslash at the end of a line, which joins the line to the next text. -/
def joinedLine? (cs : List Char) : Option (List Char) :=
  (newline? (skipBlanks cs)).map fun rest =>
    rest.dropWhile fun c => isBlank c || c = '\n' || c = '\r'

/-- The rest of a string of several lines, where `escapes` says whether backslashes escape. -/
def lines? (quote : Char) (escapes : Bool) : Nat → Reading (List Char)
  | 0, _ => none
  | n + 1, cs =>
    match closing? quote cs with
    | some (extra, rest) => some (extra, rest)
    | none =>
      let more (c : Char) (rest : List Char) : Option (List Char × List Char) :=
        (lines? quote escapes n rest).map fun (text, rest) => (c :: text, rest)
      match newline? cs, cs with
      | some rest, _ => more '\n' rest
      | none, c :: cs =>
        if c = '\\' && escapes then
          match joinedLine? cs with
          | some rest => lines? quote escapes n rest
          | none => (escape? cs).bind fun (c, rest) => more c rest
        else if isPlain c then more c cs
        else none
      | none, [] => none

/-- The rest after an end of line that follows three opening quotes, which is not part of the
string. -/
def dropNewline (cs : List Char) : List Char :=
  (newline? cs).getD cs

/-- A string on one line. -/
def line? : Reading String
  | '"' :: cs => (basic? (cs.length + 1) cs).map fun (text, rest) => (String.ofList text, rest)
  | '\'' :: cs => (literal? cs).map fun (text, rest) => (String.ofList text, rest)
  | _ => none

/-- A string of either kind, on one line or several. -/
def string? : Reading String
  | '"' :: '"' :: '"' :: cs =>
    (lines? '"' true (cs.length + 1) (dropNewline cs)).map fun (text, rest) =>
      (String.ofList text, rest)
  | '\'' :: '\'' :: '\'' :: cs =>
    (lines? '\'' false (cs.length + 1) (dropNewline cs)).map fun (text, rest) =>
      (String.ofList text, rest)
  | cs => line? cs

/-! ## Keys and words -/

def isKeyChar (c : Char) : Bool :=
  c.isAlphanum || c = '_' || c = '-'

/-- A key without points: a quoted string, or letters, digits, underscores and hyphens. -/
def simpleKey? : Reading String := fun cs =>
  match cs with
  | '"' :: _ | '\'' :: _ => line? cs
  | cs =>
    let key := cs.takeWhile isKeyChar
    if key.isEmpty then none else some (String.ofList key, cs.dropWhile isKeyChar)

/-- A key whose parts are joined by points, with at most so many parts. -/
def key? : Nat → Reading (List String)
  | 0, _ => none
  | n + 1, cs => do
    let (k, rest) ← simpleKey? (skipBlanks cs)
    match skipBlanks rest with
    | '.' :: rest =>
      let (ks, rest) ← key? n rest
      return (k :: ks, rest)
    | rest => return ([k], rest)

/-- The deepest nesting of lists and tables in braces, and the greatest number of parts of a key. -/
def nestingLimit : Nat := 79

/-- A key of one part or several. -/
def path? : Reading (List String) := fun cs => do
  let (key, rest) ← key? (cs.length + 1) cs
  if key.length ≤ nestingLimit then some (key, rest) else none

def isWordChar (c : Char) : Bool :=
  c.isAlphanum || c = '_' || c = '-' || c = '+' || c = '.' || c = ':'

/-- Whether a date is followed by a time of day after a single space. -/
def continuesDate (word rest : List Char) : Bool :=
  (date? word).any (·.2.isEmpty) &&
    match rest with
    | ' ' :: a :: b :: ':' :: _ => a.isDigit && b.isDigit
    | _ => false

/-- An unquoted word; a date takes the time of day after it along. -/
def word? : Reading (List Char) := fun cs =>
  let word := cs.takeWhile isWordChar
  let rest := cs.dropWhile isWordChar
  if word.isEmpty then none
  else if continuesDate word rest then
    some (word ++ ' ' :: (rest.drop 1).takeWhile isWordChar, (rest.drop 1).dropWhile isWordChar)
  else some (word, rest)

end VirtualComputer.Toml
