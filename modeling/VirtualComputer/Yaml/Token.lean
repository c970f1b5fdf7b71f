import VirtualComputer.Yaml.Scalar

/-!
# Tokens of YAML texts

The tokens make explicit what columns mean: where collections in blocks begin and end, and what is a
key.  That something is a key shows only at the colon after it, so the token before it is put in
later, at a place that the scanner keeps in mind.
-/

namespace VirtualComputer.Yaml

/-- What the tag of a node says about it. -/
inductive Tag where
  /-- It is of a standard type. -/
  | standard (name : String)
  | other
  deriving DecidableEq, Repr

inductive Token where
  /-- A directive, which may tell the version. -/
  | directive (version : Bool)
  | documentStart
  | documentEnd
  /-- The start of a list or a mapping in a block. -/
  | blockList
  | blockMapping
  | blockEnd
  /-- The brackets of a list and the braces of a mapping. -/
  | listStart
  | listEnd
  | mappingStart
  | mappingEnd
  | comma
  /-- A dash before an item. -/
  | item
  | key
  | value
  | anchor (name : String)
  | reference (name : String)
  | tag (t : Tag)
  | scalar (plain : Bool) (text : String)
  deriving DecidableEq, Repr

/-- Where something begins that may turn out to be a key. -/
structure KeyStart where
  /-- Whether it can be nothing else. -/
  required : Bool
  /-- The number of tokens before it. -/
  place : Nat
  index : Nat
  line : Nat
  column : Nat

/-- A column that is left when a block ends. -/
structure Indent where
  outer : Int
  /-- Whether a token tells the end of the block. -/
  isBlock : Bool

/-- The state of reading tokens. -/
structure Scanner where
  cursor : Cursor
  tokens : Array Token
  /-- What may turn out to be a key. -/
  pending : Option KeyStart
  /-- The open brackets: whether they are those of a list, and what was pending before them. -/
  levels : List (Bool × Option KeyStart)
  keyAllowed : Bool
  /-- The column of the innermost block; −1 outside of all. -/
  column : Int
  indents : List Indent
  /-- The place at which a colon needs no blank after it, since it follows a quote or a bracket. -/
  valueAt : Nat

namespace Scanner

def start (cs : List Char) : Scanner where
  cursor := .start cs
  tokens := #[]
  pending := none
  levels := []
  keyAllowed := true
  column := -1
  indents := []
  valueAt := 0

def inBrackets (s : Scanner) : Bool :=
  !s.levels.isEmpty

/-! ## Tokens and keys -/

def emit (t : Token) (s : Scanner) : Scanner :=
  { s with tokens := s.tokens.push t }

/-- Emits a token at a place among those that there are. -/
def emitAt (place : Nat) (t : Token) (s : Scanner) : Scanner :=
  { s with tokens := s.tokens.insertIdxIfInBounds place t }

def allowKey (allowed : Bool) (s : Scanner) : Scanner :=
  { s with keyAllowed := allowed }

/-- Keeps in mind that a key may begin here. -/
def saveKey (s : Scanner) : Scanner :=
  if s.keyAllowed then
    let required := !s.inBrackets && s.column = s.cursor.column && s.indents.head?.any (·.isBlock)
    let p := s.cursor
    { s with pending := some ⟨required, s.tokens.size, p.index, p.line, p.column⟩ }
  else s

/-- Gives up that there is a key, unless there has to be one. -/
def dropKey? (s : Scanner) : Option Scanner :=
  if s.pending.any (·.required) then none else some { s with pending := none }

/-- How far from its start a key may end. -/
def keyLimit : Nat := 1024

/-- Gives up a key that began on another line or too far away. -/
def dropOldKey? (s : Scanner) : Option Scanner :=
  let old (k : KeyStart) : Bool := k.line < s.cursor.line || k.index + keyLimit < s.cursor.index
  if !s.inBrackets && s.pending.any old then s.dropKey? else some s

/-! ## Blocks -/

/-- Leaves columns down to a given one; the number counts the blocks that end. -/
def leave (target : Int) : Int → List Indent → Int × List Indent × Nat
  | column, [] => (column, [], 0)
  | column, i :: rest =>
    if target < column then
      let (column, rest, n) := leave target i.outer rest
      (column, rest, if i.isBlock then n + 1 else n)
    else (column, i :: rest, 0)

/-- Ends the blocks that begin after a column. -/
def endBlocks (target : Int) (s : Scanner) : Scanner :=
  if s.inBrackets then s
  else
    let (column, indents, n) := leave target s.column s.indents
    { s with column, indents, tokens := s.tokens ++ List.replicate n Token.blockEnd }

/-- Leaves the innermost column if no token tells its end. -/
def leaveInner (s : Scanner) : Scanner :=
  match s.indents with
  | ⟨outer, false⟩ :: rest => { s with column := outer, indents := rest }
  | _ => s

/-- Begins a block at a column, unless it has begun.  Its token stands at a given place. -/
def beginBlock (column : Nat) (place : Nat) (t : Token) (s : Scanner) : Scanner :=
  if s.inBrackets then s
  else
    let s := if s.column ≤ column then s.leaveInner else s
    if s.column < column then
      emitAt place t { s with column := column, indents := ⟨s.column, true⟩ :: s.indents }
    else s

/-- Asks that what follows stands further to the right than the block. -/
def indentContent (s : Scanner) : Scanner :=
  if !s.inBrackets && s.indents.head?.any (·.isBlock) then
    { s with column := s.column + 1, indents := ⟨s.column, false⟩ :: s.indents }
  else s

/-! ## Brackets -/

/-- How many brackets may be open. -/
def nestingLimit : Nat := 255

/-- Goes on after a character, and after blanks and a comment. -/
def pass? (s : Scanner) : Option Scanner :=
  s.cursor.step.restOfLine?.map fun (_, p) => { s with cursor := p }

def openBracket? (isList : Bool) (s : Scanner) : Option Scanner := do
  guard (s.levels.length < nestingLimit)
  let s := s.saveKey.indentContent
  let s := { s with levels := (isList, s.pending) :: s.levels, pending := none, keyAllowed := true }
  return (← s.pass?).emit (if isList then .listStart else .mappingStart)

def closeBracket? (isList : Bool) (s : Scanner) : Option Scanner := do
  let s ← s.dropKey?
  let s := match s.levels with
    | (_, pending) :: levels => { s with levels, pending }
    | [] => s
  let s ← (s.allowKey false).pass?
  let s := if s.inBrackets then { s with valueAt := s.cursor.index } else s
  return s.emit (if isList then .listEnd else .mappingEnd)

def comma? (s : Scanner) : Option Scanner := do
  let s ← (← s.dropKey?).pass?
  return (s.allowKey true).emit .comma

/-! ## Items, keys and values -/

/-- An item of a list in a block. -/
def item? (s : Scanner) : Option Scanner := do
  guard (!s.inBrackets && s.keyAllowed)
  let s := s.beginBlock s.cursor.column s.tokens.size .blockList
  let (blanks, p) ← s.cursor.step.restOfLine?
  guard (!(blanks.contains '\t' && p.rest.head? = some '-' && endsWord (p.rest.drop 1)))
  let s := { s with cursor := p }
  let opens := p.rest.head?.any fun c => isBreak c || isBracket c
  let s := if opens then s.indentContent else s
  return ((← s.dropKey?).allowKey true).emit .item

/-- A key after a question mark. -/
def key? (s : Scanner) : Option Scanner := do
  guard (s.inBrackets || s.keyAllowed)
  let s := s.beginBlock s.cursor.column s.tokens.size .blockMapping
  let s ← s.dropKey?
  let s := s.allowKey (!s.inBrackets)
  let p := s.cursor.step
  guard (p.rest.head?.any (· ≠ '\t'))
  let (p, _) ← p.skip? (fun _ => none) p.rest.length
  return { s with cursor := p }.emit .key

/-- The place after a colon.  A word needs a space after it. -/
def afterColon? (p : Cursor) : Option Cursor :=
  let p := p.step
  if p.rest.head? = some '\t' then do
    let (blanks, p) ← p.restOfLine?
    guard (blanks.contains ' ' || !p.rest.head?.any isWordChar)
    return p
  else some p

/-- A value, whose key may have been pending. -/
def value? (s : Scanner) : Option Scanner := do
  let column := s.cursor.column
  let line := s.cursor.line
  let s := { s with cursor := ← afterColon? s.cursor }
  match s.pending with
  | some k =>
    guard (!(s.levels.head?.any (·.1) && k.line < line))
    let s := { s with pending := none }.emitAt k.place .key
    return ((s.beginBlock k.column k.place .blockMapping).indentContent.allowKey false).emit .value
  | none =>
    guard (s.inBrackets || s.keyAllowed)
    let s := (s.beginBlock column s.tokens.size .blockMapping).indentContent
    return (s.allowKey (!s.inBrackets)).emit .value

/-! ## Names and tags -/

/-- Whether a character may stand in the name of an anchor. -/
def isAnchorChar (c : Char) : Bool :=
  !isBlank c && !isBreak c && !isBracket c && c ≠ '\uFEFF'

/-- An anchor or a reference. -/
def anchor? (s : Scanner) : Option Scanner := do
  let isReference := s.cursor.rest.head? = some '*'
  let p := s.cursor.step
  let name := String.ofList (p.rest.takeWhile isAnchorChar)
  guard (!name.isEmpty)
  let s := { s.saveKey.allowKey false with cursor := p.dropWhile isAnchorChar }
  return s.emit (if isReference then .reference name else .anchor name)

/-- Whether a character may stand in the address of a tag. -/
def isAddressChar (c : Char) : Bool :=
  c.isAlphanum || "#;/?:@&=+$,_.!~*'()[]%-".toList.contains c

/-- Whether a character may stand in the name of a tag. -/
def isTagChar (c : Char) : Bool :=
  isAddressChar c && !isBracket c && c ≠ '!'

/-- The tag at the start of a text, and its length.  A handle of its own has not been declared. -/
def readTag? (cs : List Char) : Option (Tag × Nat) :=
  match cs.drop 1 with
  | '<' :: cs =>
    let address := cs.takeWhile isAddressChar
    if cs.drop address.length |>.head?.any (· = '>') then some (.other, address.length + 3) else none
  | '!' :: cs =>
    let name := cs.takeWhile isTagChar
    if name.isEmpty then none else some (.standard (String.ofList name), name.length + 2)
  | cs =>
    let handle := cs.takeWhile isWordChar
    if (cs.drop handle.length).head? = some '!' then none
    else some (.other, (cs.takeWhile isTagChar).length + 1)

def tag? (s : Scanner) : Option Scanner := do
  let (t, length) ← readTag? s.cursor.rest
  let p := s.cursor.drop length
  guard (endsWord p.rest || (s.inBrackets && beginsBracket p.rest))
  return { s.saveKey.allowKey false with cursor := p }.emit (.tag t)

/-! ## Scalars -/

def plainScalar? (s : Scanner) : Option Scanner := do
  let s := s.saveKey.allowKey false
  let s := s.indents.foldl (fun s _ => s.leaveInner) s
  guard (!s.inBrackets || s.column + 1 ≤ s.cursor.column)
  let (text, broken, p) ← plain? s.inBrackets (s.column + 1) s.cursor
  return ({ s with cursor := p }.allowKey broken).emit (.scalar true (String.ofList text))

def quotedScalar? (quote : Char) (s : Scanner) : Option Scanner := do
  let s := s.saveKey.allowKey false
  let (text, p) ← quoted? quote s.inBrackets s.column s.cursor
  let (p, broken) ← p.skip? (Cursor.afterTab? s.column) p.rest.length
  let s := { s with cursor := p, valueAt := p.index }
  return (s.allowKey (broken && !s.inBrackets)).emit (.scalar false (String.ofList text))

def blockScalar? (s : Scanner) : Option Scanner := do
  let s := s.saveKey.allowKey true
  let s := s.indents.foldl (fun s _ => s.leaveInner) s
  let (text, p) ← block? s.column s.cursor
  return { s with cursor := p }.emit (.scalar false (String.ofList text))

/-! ## Documents -/

/-- The start or the end of a document. -/
def documentMark? (t : Token) (s : Scanner) : Option Scanner := do
  let s ← (s.endBlocks (-1)).dropKey?
  return ({ s with cursor := s.cursor.drop 3 }.allowKey false).emit t

/-- Whether a text is the version that a directive tells, and how long it is. -/
def version? (cs : List Char) : Option Nat :=
  let blanks := cs.takeWhile isBlank
  let cs := cs.drop blanks.length
  let major := cs.takeWhile Char.isDigit
  match cs.drop major.length with
  | '.' :: cs =>
    let minor := cs.takeWhile Char.isDigit
    let fits (ds : List Char) : Bool := 0 < ds.length && ds.length < 10
    if fits major && fits minor then some (blanks.length + major.length + 1 + minor.length) else none
  | _ => none

/-- A directive, of which only those about the version are understood. -/
def directive? (s : Scanner) : Option Scanner := do
  let s ← (s.endBlocks (-1)).dropKey?
  let p := s.cursor.step
  let name := p.rest.takeWhile isWordChar
  let p := p.drop name.length
  guard (!name.isEmpty && endsWord p.rest)
  let isVersion := name = "YAML".toList
  let p ← if isVersion then (version? p.rest).map fun n => p.drop n
    else some (p.dropWhile fun _ => true)
  let (_, p) ← p.restOfLine?
  guard p.atLineEnd
  return ({ s with cursor := p.step }.allowKey false).emit (.directive isVersion)

/-! ## All tokens -/

/-- Goes on to where the next token begins. -/
def next? (s : Scanner) : Option Scanner := do
  let (p, broken) ← s.cursor.skip? (Cursor.afterTab? s.column) s.cursor.rest.length
  let s := { s with cursor := p, keyAllowed := s.keyAllowed || (broken && !s.inBrackets) }
  return (← s.dropOldKey?).endBlocks p.column

/-- Reads the token that begins here. -/
def token? (s : Scanner) : Option Scanner :=
  let p := s.cursor
  if p.column < s.column then none
  else if p.column = 0 && p.rest.head? = some '%' then s.directive?
  else if p.atMark '-' then s.documentMark? .documentStart
  else if p.atMark '.' then do
    let s ← s.documentMark? .documentEnd
    let (_, p) ← s.cursor.restOfLine?
    if p.atLineEnd then some { s with cursor := p } else none
  else match p.rest with
    | [] => none
    | c :: cs =>
      let isColon := endsWord cs || (s.inBrackets && (beginsBracket cs || p.index = s.valueAt))
      if c = '[' then s.openBracket? true
      else if c = '{' then s.openBracket? false
      else if c = ']' then s.closeBracket? true
      else if c = '}' then s.closeBracket? false
      else if c = ',' then s.comma?
      else if c = '-' && endsWord cs then s.item?
      else if c = '?' && endsWord cs then s.key?
      else if c = ':' && isColon then s.value?
      else if c = '*' || c = '&' then s.anchor?
      else if c = '!' then s.tag?
      else if (c = '|' || c = '>') && !s.inBrackets then s.blockScalar?
      else if c = '\'' || c = '"' then s.quotedScalar? c
      else if c = '%' || c = '@' || c = '\x60' then none
      else s.plainScalar?

/-- The tokens at the end of the text, where no key may be missing. -/
def finish? (s : Scanner) : Option (List Token) := do
  let s ← s.dropKey?
  guard (s.levels.all fun (_, k) => !k.any (·.required))
  return (s.endBlocks (-1)).tokens.toList

/-- All tokens, of which at most so many are left. -/
def all? : Nat → Scanner → Option (List Token)
  | 0, _ => none
  | n + 1, s => do
    let s ← s.next?
    if s.cursor.rest.isEmpty then s.finish? else all? n (← s.token?)

end Scanner

/-- The tokens of a text, which ends at a character that is none. -/
def tokens? (text : String) : Option (List Token) :=
  let cs := text.toList.takeWhile (· ≠ Char.ofNat 0)
  Scanner.all? (cs.length + 1) (.start cs)

end VirtualComputer.Yaml
