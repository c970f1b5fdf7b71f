import VirtualComputer.Json.Token
import VirtualComputer.Yaml.Cursor

/-!
# Texts of YAML scalars

A scalar is written plainly, in quotes, or as a block of lines.  Plain and quoted ones may run over
several lines, whose ends count as blanks or, if there are empty lines, as these.
-/

namespace VirtualComputer.Yaml

/-! ## White space in scalars -/

/-- White space inside a scalar. -/
inductive Gap where
  | blanks (cs : List Char)
  /-- The end of a line and so many empty lines after it; an escaped end counts for nothing. -/
  | lines (escaped : Bool) (empty : Nat)
  deriving Repr

namespace Gap

/-- What white space stands for. -/
def text : Gap → List Char
  | .blanks cs => cs
  | .lines escaped n => if n = 0 && !escaped then [' '] else List.replicate n '\n'

/-- Whether a line ends in white space. -/
def breaks : Gap → Bool
  | .blanks _ => false
  | .lines _ _ => true

/-- White space with a further blank. -/
def blank (c : Char) : Gap → Gap
  | .blanks cs => .blanks (cs ++ [c])
  | g => g

/-- White space with a further end of a line. -/
def newline : Gap → Gap
  | .blanks _ => .lines false 0
  | .lines escaped n => .lines escaped (n + 1)

/-- Reads white space, of at most so many characters, after some of it.  What follows a tab at the
start of a line is to be said. -/
def read? (tab? : Cursor → Option Cursor) : Nat → Gap → Cursor → Option (Gap × Cursor)
  | 0, g, p => some (g, p)
  | n + 1, g, p =>
    match p.rest with
    | [] => some (g, p)
    | c :: _ =>
      if isBreak c then read? tab? n g.newline p.step
      else if c = '\t' && g.breaks then do read? tab? n g (← tab? p)
      else if isBlank c then read? tab? n (g.blank c) p.step
      else some (g, p)

end Gap

/-! ## Plain scalars -/

/-- The characters of a plain scalar up to white space. -/
def plainWord (inBrackets : Bool) : List Char → List Char
  | [] => []
  | c :: cs =>
    if isBlank c || isBreak c || (inBrackets && isBracket c) ||
      (c = ':' && (endsWord cs || (inBrackets && beginsBracket cs))) then []
    else c :: plainWord inBrackets cs

/-- Reads the rest of a plain scalar, of at most so many words, after white space; also says whether
a line has ended after it.  Its lines begin at a column or after it. -/
def plainRest? (inBrackets : Bool) (column : Int) : Nat → Gap → Cursor →
    Option (List Char × Bool × Cursor)
  | 0, _, _ => none
  | n + 1, g, p =>
    if p.atDocumentMark || p.rest.head? = some '#' then some ([], g.breaks, p)
    else if inBrackets && p.rest.head? = some '-' && beginsBracket (p.rest.drop 1) then none
    else
      let word := plainWord inBrackets p.rest
      if word.isEmpty then some ([], g.breaks, p)
      else do
        let text := g.text ++ word
        let p := p.drop word.length
        if p.rest.isEmpty || !endsWord p.rest then return (text, false, p)
        let (g, p) ← Gap.read? (Cursor.afterTab? column) p.rest.length (.blanks []) p
        if !inBrackets && p.column < column then return (text, g.breaks, p)
        let (more, broken, p) ← plainRest? inBrackets column n g p
        return (text ++ more, broken, p)

/-- Reads a plain scalar, and says whether a line has ended after it. -/
def plain? (inBrackets : Bool) (column : Int) (p : Cursor) : Option (List Char × Bool × Cursor) :=
  match plainRest? inBrackets column (p.rest.length + 1) (.blanks []) p with
  | some ([], _) => none
  | result => result

/-! ## Quoted scalars -/

/-- The characters that escapes of one letter stand for. -/
def escapes : List (Char × Nat) := [
  ('0', 0), ('a', 7), ('b', 8), ('t', 9), ('\t', 9), ('n', 10), ('v', 11), ('f', 12), ('r', 13),
  ('e', 27), (' ', 32), ('"', 34), ('/', 47), ('\\', 92), ('N', 0x85), ('_', 0xA0), ('L', 0x2028),
  ('P', 0x2029)]

/-- How many digits follow the letters of escapes by number. -/
def digitCount? : Char → Option Nat
  | 'x' => some 2
  | 'u' => some 4
  | 'U' => some 8
  | _ => none

/-- The character that what follows a backslash stands for, and how long that is. -/
def escape? : List Char → Option (Char × Nat)
  | [] => none
  | c :: cs =>
    match escapes.lookup c with
    | some n => some (Char.ofNat n, 1)
    | none => do
      let count ← digitCount? c
      guard (count ≤ cs.length)
      let values ← (cs.take count).mapM Json.Lexer.hexValue?
      let n := values.foldl (fun n d => 16 * n + d) 0
      guard n.isValidChar
      return (Char.ofNat n, count + 1)

/-- Reads the characters of a quoted scalar, at most so many, up to white space or the quote; also
says whether an escaped end of a line has followed. -/
def quotedWord? (quote : Char) : Nat → Cursor → Option (List Char × Bool × Cursor)
  | 0, p => some ([], false, p)
  | n + 1, p =>
    match p.rest with
    | [] => some ([], false, p)
    | c :: cs =>
      if isBlank c || isBreak c then some ([], false, p)
      else if c = quote then
        if quote = '\'' && cs.head? = some '\'' then with? n '\'' (p.drop 2)
        else some ([], false, p)
      else if c = '\\' && quote = '"' then
        if cs.head?.any isBreak then some ([], true, p.drop 2)
        else (escape? cs).bind fun (c, length) => with? n c (p.drop (length + 1))
      else with? n c p.step
where
  /-- A character and those that follow. -/
  with? (n : Nat) (c : Char) (p : Cursor) : Option (List Char × Bool × Cursor) :=
    (quotedWord? quote n p).map fun (cs, escaped, p) => (c :: cs, escaped, p)

/-- Reads a quoted scalar, of at most so many words, after its first quote.  Its lines begin at a
column or after it. -/
def quotedRest? (quote : Char) (column : Int) : Nat → Cursor → Option (List Char × Cursor)
  | 0, _ => none
  | n + 1, p => do
    guard (!p.atDocumentMark && !p.rest.isEmpty && column ≤ p.column)
    let (word, escaped, p) ← quotedWord? quote p.rest.length p
    if p.rest.head? = some quote then return (word, p.step)
    let tab? (p : Cursor) : Option Cursor := if p.column < column then none else some p.step
    let (g, p) ← Gap.read? tab? p.rest.length (if escaped then .lines true 0 else .blanks []) p
    let (more, p) ← quotedRest? quote column n p
    return (word ++ g.text ++ more, p)

/-- Reads a quoted scalar, after which only what may follow a key or an item stands on its line. -/
def quoted? (quote : Char) (inBrackets : Bool) (column : Int) (p : Cursor) :
    Option (List Char × Cursor) := do
  let (text, q) ← quotedRest? quote column (p.rest.length + 1) p.step
  let (_, q) ← q.restOfLine?
  let ends := match q.rest with
    | ':' :: _ => inBrackets || p.line = q.line
    | ',' :: _ | '}' :: _ | ']' :: _ => inBrackets
    | _ => q.atLineEnd
  if ends then some (text, q) else none

/-! ## Blocks of lines -/

/-- What becomes of the ends of lines at the end of a block. -/
inductive Chomping where
  | strip
  | clip
  | keep
  deriving DecidableEq, Repr

/-- The chomping that a sign stands for. -/
def chomping? (c : Char) : Option Chomping :=
  if c = '+' then some .keep else if c = '-' then some .strip else none

/-- The number of further columns that a digit stands for. -/
def columns? (c : Char) : Option Nat :=
  if c.isDigit && c ≠ '0' then some (c.toNat - 48) else none

/-- What the signs at the start of a block say: its chomping and, unless it is zero, its column. -/
def header? : List Char → Option (Chomping × Nat)
  | [] => some (.clip, 0)
  | [c] =>
    match chomping? c with
    | some k => some (k, 0)
    | none => (columns? c).map fun n => (.clip, n)
  | [c, d] =>
    match chomping? c with
    | some k => (columns? d).map fun n => (k, n)
    | none => do return (← chomping? d, ← columns? c)
  | _ => none

/-- Goes to a column or to the first character that is no space, over at most so many empty lines,
which are counted. -/
def indentTo (column : Nat) : Nat → Cursor → Nat × Cursor
  | 0, p => (0, p)
  | n + 1, p =>
    let p := p.drop ((p.rest.take (column - p.column)).takeWhile (· = ' ')).length
    if p.rest.head?.any isBreak then
      let (empty, p) := indentTo column n p.step
      (empty + 1, p)
    else (0, p)

/-- Goes to the first character that is no space, over at most so many empty lines, which are
counted; also gives the greatest column on the way. -/
def firstIndent : Nat → Cursor → Nat × Nat × Cursor
  | 0, p => (0, p.column, p)
  | n + 1, p =>
    let p := p.dropWhile (· = ' ')
    if p.rest.head?.any isBreak then
      let (empty, column, q) := firstIndent n p.step
      (empty + 1, max p.column column, q)
    else (0, p.column, p)

/-- The state of a block between two of its lines. -/
structure BlockState where
  /-- Whether a line has ended. -/
  ended : Bool
  /-- The number of empty lines after it. -/
  empty : Nat
  /-- Whether it began with a blank. -/
  indented : Bool

/-- What the ends of lines before a line stand for, which may begin with a blank. -/
def BlockState.text (literal indented : Bool) (b : BlockState) : List Char :=
  let folds := !literal && b.ended && !b.indented && !indented
  let first := if folds then (if b.empty = 0 then [' '] else []) else if b.ended then ['\n'] else []
  first ++ List.replicate b.empty '\n'

/-- Reads at most so many lines of a block that begin at a column. -/
def blockLines (literal : Bool) (column : Nat) : Nat → BlockState → Cursor →
    List Char × BlockState × Cursor
  | 0, b, p => ([], b, p)
  | n + 1, b, p =>
    if p.column ≠ column || p.rest.isEmpty || p.atMark '.' then ([], b, p)
    else
      let line := p.rest.takeWhile fun c => !isBreak c
      let indented := p.rest.head?.any isBlank
      let text := b.text literal indented ++ line
      let p := p.drop line.length
      if p.rest.isEmpty then (text, ⟨false, 0, indented⟩, p)
      else
        let (empty, p) := indentTo column p.rest.length p.step
        let (more, b, p) := blockLines literal column n ⟨true, empty, indented⟩ p
        (text ++ more, b, p)

/-- What the ends of lines at the end of a block stand for.  The end of the text ends a line. -/
def blockEnd (k : Chomping) (column : Nat) (b : BlockState) (p : Cursor) : List Char :=
  let last := (if b.ended then ['\n'] else []) ++
    (if p.rest.isEmpty && max column 1 ≤ p.column then ['\n'] else [])
  match k with
  | .strip => []
  | .clip => last
  | .keep => last ++ List.replicate b.empty '\n'

/-- Reads a block of lines inside something that begins at a column. -/
def block? (outer : Int) (p : Cursor) : Option (List Char × Cursor) := do
  let literal := p.rest.head? = some '|'
  let p := p.step
  let signs := p.rest.takeWhile fun c => c = '+' || c = '-' || c.isDigit
  let (k, columns) ← header? signs
  let (_, q) ← (p.drop signs.length).restOfLine?
  guard q.atLineEnd
  let q := q.step
  guard (q.rest.head? ≠ some '\t')
  let (column, empty, q) :=
    if columns = 0 then
      let (empty, column, q) := firstIndent q.rest.length q
      (max column (outer + 1).toNat, empty, q)
    else
      let column := columns + (max outer 0).toNat
      (column, indentTo column q.rest.length q)
  if q.rest.isEmpty then
    let lines := if k = .strip || q.line = p.line then 0 else if k = .keep then max empty 1 else 1
    return (List.replicate lines '\n', q)
  guard (!(q.column < column && outer < q.column))
  let (text, b, q) := blockLines literal column (q.rest.length + 1) ⟨false, empty, false⟩ q
  return (text ++ blockEnd k column b q, q)

end VirtualComputer.Yaml
