import VirtualComputer.Decimal.Numeral
import VirtualComputer.Json.Basic

/-!
# Tokens of data texts

A text is cut into tokens by one pass over its characters, `Lexer.step`.  Words and numbers run
up to the next character that cannot continue them and are then looked up as a whole; strings
are given with their escapes resolved.  Numbers beyond the doubles and strings with half of a
surrogate pair are cut out like all others, so that a reader may pass over them.
-/

namespace VirtualComputer.Json

inductive Token where
  | openList
  | closeList
  | openObject
  | closeObject
  | comma
  | colon
  /-- A quoted string, nothing if it has half of a surrogate pair in it. -/
  | text (s : Option String)
  /-- A number or one of the three words. -/
  | scalar (j : Json)

namespace Token

/-- The token of a punctuation character. -/
def ofPunctuation? : Char → Option Token
  | '[' => some .openList
  | ']' => some .closeList
  | '{' => some .openObject
  | '}' => some .closeObject
  | ',' => some .comma
  | ':' => some .colon
  | _ => none

/-- The number that a strict numeral denotes.  A whole one that fits a word stays whole, negative
zero is floating, and a number beyond the doubles is unusable. -/
def number? (cs : List Char) : Option Json := do
  let n ← Decimal.Numeral.read? cs
  guard n.isStrict
  let floating := ((n.round .double).map fun b => Json.float (b.toFloat n.negative)).getD .unusable
  match n.toInt? with
  | some i => return if isWord i && !(n.negative && i = 0) then .int i else floating
  | none => return floating

/-- The token of a maximal run of word characters. -/
def ofWord? (cs : List Char) : Option Token :=
  if cs = ['n', 'u', 'l', 'l'] then some (.scalar .null)
  else if cs = ['t', 'r', 'u', 'e'] then some (.scalar (.bool true))
  else if cs = ['f', 'a', 'l', 's', 'e'] then some (.scalar (.bool false))
  else (number? cs).map .scalar

end Token

/-! ## The lexer -/

/-- The characters of a string, last first; nothing once it has half of a surrogate pair in it. -/
abbrev Seen := Option (List Char)

/-- What is being read; the characters of words are kept last first. -/
inductive Mode where
  | between
  | word (seen : List Char)
  | text (seen : Seen)
  /-- After a backslash. -/
  | escaped (seen : Seen)
  /-- Inside the four hexadecimal digits of an escape, after a first half of a pair if any. -/
  | hex (seen : Seen) (half : Option Nat) (count value : Nat)
  /-- After the first half of a pair, which a backslash has to follow. -/
  | half (seen : Seen) (first : Nat)
  /-- After the first half of a pair and a backslash. -/
  | halfEscaped (seen : Seen) (first : Nat)

structure Lexer where
  mode : Mode
  /-- The tokens read, last first. -/
  tokens : List Token

namespace Lexer

def isBlank (c : Char) : Bool :=
  c = ' ' || c = '\n' || c = '\t' || c = '\r'

/-- The characters that words and numbers are made of. -/
def isWordChar (c : Char) : Bool :=
  c.isAlphanum || c = '-' || c = '+' || c = '.'

/-- The character that a one-letter escape stands for. -/
def unescape? : Char → Option Char
  | '"' => some '"'
  | '\\' => some '\\'
  | '/' => some '/'
  | 'b' => some (Char.ofNat 8)
  | 'f' => some (Char.ofNat 12)
  | 'n' => some '\n'
  | 'r' => some '\r'
  | 't' => some '\t'
  | _ => none

def hexValue? (c : Char) : Option Nat :=
  if c.isDigit then some (c.toNat - 48)
  else if 'a' ≤ c && c ≤ 'f' then some (c.toNat - 87)
  else if 'A' ≤ c && c ≤ 'F' then some (c.toNat - 55)
  else none

/-- A character outside strings and words. -/
def outside (tokens : List Token) (c : Char) : Option Lexer :=
  if isBlank c then some ⟨.between, tokens⟩
  else if c = '"' then some ⟨.text (some []), tokens⟩
  else if isWordChar c then some ⟨.word [c], tokens⟩
  else (Token.ofPunctuation? c).map fun t => ⟨.between, t :: tokens⟩

/-- One more character of a string. -/
def add (seen : Seen) (c : Char) : Seen :=
  seen.map (c :: ·)

/-- A character inside a string. -/
def inside (tokens : List Token) (seen : Seen) (c : Char) : Option Lexer :=
  if c = '"' then
    some ⟨.between, .text (seen.map fun cs => String.ofList cs.reverse) :: tokens⟩
  else if c = '\\' then some ⟨.escaped seen, tokens⟩
  else if c.toNat < 32 then none
  else some ⟨.text (add seen c), tokens⟩

/-- A character after a backslash. -/
def afterBackslash (tokens : List Token) (seen : Seen) (c : Char) : Option Lexer :=
  if c = 'u' then some ⟨.hex seen none 0 0, tokens⟩
  else (unescape? c).map fun c => ⟨.text (add seen c), tokens⟩

/-- The end of a four-digit escape: a character, the first half of a pair, or its second half. -/
def closeHex (tokens : List Token) (seen : Seen) (half : Option Nat) (value : Nat) : Lexer :=
  let isFirst := 0xD800 ≤ value && value < 0xDC00
  let isSecond := 0xDC00 ≤ value && value < 0xE000
  match half with
  | none =>
    if isFirst then ⟨.half seen value, tokens⟩
    else if isSecond then ⟨.text none, tokens⟩
    else ⟨.text (add seen (Char.ofNat value)), tokens⟩
  | some first =>
    if isSecond then
      let c := Char.ofNat (0x10000 + (first - 0xD800) * 0x400 + (value - 0xDC00))
      ⟨.text (add seen c), tokens⟩
    else ⟨.text none, tokens⟩

/-- Reads one character. -/
def step (l : Lexer) (c : Char) : Option Lexer :=
  match l.mode with
  | .between => outside l.tokens c
  | .word seen =>
    if isWordChar c then some ⟨.word (c :: seen), l.tokens⟩
    else (Token.ofWord? seen.reverse).bind fun t => outside (t :: l.tokens) c
  | .text seen => inside l.tokens seen c
  | .escaped seen => afterBackslash l.tokens seen c
  | .hex seen half count value =>
    (hexValue? c).map fun d =>
      if count < 3 then ⟨.hex seen half (count + 1) (16 * value + d), l.tokens⟩
      else closeHex l.tokens seen half (16 * value + d)
  | .half seen first =>
    if c = '\\' then some ⟨.halfEscaped seen first, l.tokens⟩ else inside l.tokens none c
  | .halfEscaped seen first =>
    if c = 'u' then some ⟨.hex seen (some first) 0 0, l.tokens⟩
    else afterBackslash l.tokens none c

/-- The tokens once the text has ended, which it may not do inside a string. -/
def finish (l : Lexer) : Option (List Token) :=
  match l.mode with
  | .between => some l.tokens.reverse
  | .word seen => (Token.ofWord? seen.reverse).map fun t => (t :: l.tokens).reverse
  | _ => none

end Lexer

/-- The tokens of a text, nothing if it cannot be cut into tokens. -/
def tokens? (cs : List Char) : Option (List Token) :=
  (cs.foldlM Lexer.step ⟨.between, []⟩).bind Lexer.finish

end VirtualComputer.Json
