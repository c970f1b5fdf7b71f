import VirtualComputer.Decimal.Shortest
import VirtualComputer.Toml.Value
import VirtualComputer.Word

/-!
# Writing TOML texts

A string is written in the plainest form that holds it: between double quotes if nothing in it
needs an escape, between single quotes if that avoids escapes, over several lines if it has
line breaks, and with escapes otherwise.
-/

namespace VirtualComputer.Toml

/-! ## Strings -/

/-- The length of the longest run of a character. -/
def longestRun (mark : Char) (cs : List Char) : Nat :=
  (cs.foldl (fun (run, most) c =>
    if c = mark then (run + 1, max most (run + 1)) else (0, most)) (0, 0)).2

/-- Whether a character is a control character other than those that blanks and lines are made of. -/
def isControl (c : Char) : Bool :=
  (c.toNat < 32 && c ≠ '\t' && c ≠ '\n') || c.toNat = 127

/-- The forms in which a string can be written. -/
inductive StringForm where
  | basic
  | literal
  | multilineBasic
  | multilineLiteral
  deriving DecidableEq, Repr

/-- The form in which a string is written. -/
def StringForm.of (cs : List Char) : StringForm :=
  let control := cs.any isControl
  let backslash := cs.contains '\\'
  let lines := cs.contains '\n'
  let doubles := longestRun '"' cs
  let singles := longestRun '\'' cs
  if !control && !backslash && !lines && doubles = 0 then .basic
  else if !control && !lines && singles = 0 then .literal
  else if !control && !backslash && doubles ≤ 2 then .multilineBasic
  else if !control && singles ≤ 2 then .multilineLiteral
  else if lines then .multilineBasic
  else .basic

/-- The upper-case hexadecimal digits of a character below 256. -/
def hexByte (c : Char) : List Char :=
  let digit (n : Nat) : Char := (Nat.digitChar n).toUpper
  ['0', '0', digit (c.toNat / 16), digit (c.toNat % 16)]

/-- A character between double quotes, where line breaks may stand for themselves. -/
def escape (multiline : Bool) (c : Char) : List Char :=
  if c = '\\' then ['\\', '\\']
  else if c = '\t' then ['\\', 't']
  else if c = '\n' then if multiline then [c] else ['\\', 'n']
  else if c = '\r' then ['\\', 'r']
  else if c.toNat = 8 then ['\\', 'b']
  else if c.toNat = 12 then ['\\', 'f']
  else if isControl c then '\\' :: 'u' :: hexByte c
  else [c]

/-- The text between double quotes; up to two double quotes in a row may stand for themselves over
several lines, and `run` of them have just been written. -/
def escapeAll (multiline : Bool) (run : Nat) : List Char → List Char
  | [] => []
  | c :: cs =>
    if c = '"' then
      if multiline && run < 2 then c :: escapeAll multiline (run + 1) cs
      else '\\' :: c :: escapeAll multiline 0 cs
    else escape multiline c ++ escapeAll multiline 0 cs

/-- A string with its quotes. -/
def quote (s : String) : String :=
  let cs := s.toList
  let opening : List Char := if cs.contains '\n' then ['\n'] else []
  let between (mark text : List Char) : String := String.ofList (mark ++ text ++ mark)
  match StringForm.of cs with
  | .basic => between ['"'] (escapeAll false 0 cs)
  | .literal => between ['\''] cs
  | .multilineBasic => between ['"', '"', '"'] (opening ++ escapeAll true 0 cs)
  | .multilineLiteral => between ['\'', '\'', '\''] (opening ++ cs)

/-! ## Numbers -/

/-- A floating number, which always has a point or is no number. -/
def floatText (x : Float) : String :=
  if x.isNaN then if x.toBits >>> 63 = 1 then "-nan" else "nan"
  else if x.isFinite && x.floor == x then Decimal.shown x ++ ".0"
  else Decimal.shown x

/-- A whole number, if it fits a signed word. -/
def intText? (i : Int) : Option String :=
  if Word.signed64.holds i then some (Decimal.integerText i) else none

end VirtualComputer.Toml
