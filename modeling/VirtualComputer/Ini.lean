import VirtualComputer.Json.Token
import VirtualComputer.Settings.Value
import VirtualComputer.Text.Blank

/-!
# INI texts

An INI text is a list of keys with values, under headers in brackets.  Every value is a string, which
ends with its line; parts of it may be quoted, and backslashes escape.  A comment begins a line.
Of several sections with one name the last one counts.
-/

namespace VirtualComputer.Ini

/-- Reads something at the start of a text. -/
abbrev Reading (α : Type) := List Char → Option (α × List Char)

/-! ## Texts -/

/-- The character with a number of four hexadecimal digits, of which the first may be a plus. -/
def charOf? (ds : List Char) : Option Char := do
  let ds := match ds with
    | '+' :: ds => ds
    | ds => ds
  let values ← ds.mapM Json.Lexer.hexValue?
  let n := values.foldl (fun n d => 16 * n + d) 0
  if n.isValidChar then some (Char.ofNat n) else none

/-- What a backslash and the characters after it stand for.  Before the end of a text it stands for
itself. -/
def escape? (isEnd : Char → Bool) (mayEnd : Bool) : Reading (List Char)
  | [] => if mayEnd then some (['\\'], []) else none
  | c :: cs =>
    if isEnd c then some (['\\'], c :: cs)
    else match c with
      | '0' => some ([Char.ofNat 0], cs)
      | 'a' => some ([Char.ofNat 7], cs)
      | 'b' => some ([Char.ofNat 8], cs)
      | 't' => some (['\t'], cs)
      | 'r' => some (['\r'], cs)
      | 'n' => some (['\n'], cs)
      | '\n' => some ([], cs)
      | 'x' =>
        if cs.length < 4 then none else (charOf? (cs.take 4)).map fun c => ([c], cs.drop 4)
      | c => some ([c], cs)

/-- The text up to a character that ends it, which is left, or if it may end so up to the end of all;
it is of at most so many characters. -/
def until? (isEnd : Char → Bool) (mayEnd : Bool) : Nat → Reading (List Char)
  | _, [] => if mayEnd then some ([], []) else none
  | 0, _ => none
  | n + 1, c :: cs => do
    if isEnd c then return ([], c :: cs)
    let (text, rest) ← if c = '\\' then escape? isEnd mayEnd cs else some ([c], cs)
    let (more, rest) ← until? isEnd mayEnd n rest
    return (text ++ more, rest)

def isLineEnd (c : Char) : Bool :=
  c = '\n' || c = '\r'

/-- A value up to the end of its line, of at most so many parts; white space is left out at its ends
but not in quotes. -/
def value? : (parts : Nat) → (first : Bool) → Reading (List Char)
  | _, _, [] => some ([], [])
  | 0, _, _ => none
  | n + 1, first, c :: cs =>
    if c = '"' ∨ c = '\'' then do
      let (text, rest) ← until? (· = c) false cs.length cs
      let (more, rest) ← value? n false (rest.drop 1)
      return (text ++ more, rest)
    else do
      let (text, rest) ← until? isLineEnd true (cs.length + 1) (c :: cs)
      return (if first then Text.trim text else Text.trimEnd text, rest)

/-! ## Documents -/

/-- A header with the keys and values under it; what stands before all headers has none. -/
structure Section where
  header : Option String
  entries : List (String × Setting)

/-- Leaves out white space; whether what is left begins a line. -/
def skipBlanks (fresh : Bool) : List Char → Bool × List Char
  | [] => (fresh, [])
  | c :: cs => if Text.isBlank c then skipBlanks (c = '\n') cs else (fresh, c :: cs)

/-- The sections from the one that is open, with at most so many lines left. -/
def sections? : Nat → (fresh : Bool) → Section → List Char → Option (List Section)
  | 0, _, _, _ => none
  | n + 1, fresh, current, cs =>
    match skipBlanks fresh cs with
    | (_, []) => some [current]
    | (fresh, c :: cs) =>
      if c = ';' ∨ c = '#' then
        if fresh then sections? n true current ((cs.dropWhile (· ≠ '\n')).drop 1) else none
      else if c = '[' then do
        let (header, rest) ← until? (· = ']') false cs.length cs
        let opened := ⟨some (String.ofList (Text.trim header)), []⟩
        return current :: (← sections? n false opened (rest.drop 1))
      else do
        let (key, rest) ← until? (fun c => c = '=' || c = ':') false (cs.length + 1) (c :: cs)
        let key := Text.trim key
        guard (!key.isEmpty)
        let rest := (rest.drop 1).dropWhile fun c => Text.isBlank c && !isLineEnd c
        let (value, rest) ← value? (rest.length + 1) true rest
        let entry := (String.ofList key, .str (String.ofList value))
        sections? n false { current with entries := current.entries ++ [entry] } rest

/-- The entries of a section among those of the text. -/
def Section.toEntries (s : Section) : List (String × Setting) :=
  match s.header with
  | none => s.entries
  | some header => [(header, .table (Entries.ofList s.entries))]

/-- The entries that a text denotes. -/
def read? (text : String) : Option (List (String × Setting)) :=
  let cs := text.toList
  (sections? (cs.length + 1) true ⟨none, []⟩ cs).map fun sections =>
    Entries.ofList (sections.flatMap Section.toEntries)

end VirtualComputer.Ini
