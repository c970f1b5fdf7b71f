import VirtualComputer.Decimal.Numeral
import VirtualComputer.Grammar.Matcher

/-!
# Lexemes of guest programs

Names, keywords, numbers and strings are matched without blanks inside.  A word is a maximal run
of letters, digits and underscores, so a keyword never matches the beginning of a longer name.
-/

namespace VirtualComputer.Grammar

/-- The characters of names and keywords. -/
def isWordChar (c : Char) : Bool :=
  c.isAlphanum || c = '_'

/-- The words that cannot be names. -/
def reservedWords : List String :=
  ["let", "if", "else", "while", "return", "break", "continue", "try", "catch", "yield",
    "true", "false", "null"]

/-- Splits off the longest run of word characters. -/
def splitWord (cs : List Char) : List Char × List Char :=
  (cs.takeWhile isWordChar, cs.dropWhile isWordChar)

/-- Splits off a whole word if it is the given one. -/
def splitKeyword (word : String) (cs : List Char) : Option (List Char × List Char) :=
  let (run, rest) := splitWord cs
  if run = word.toList then some (run, rest) else none

/-- Whether a run of word characters is a name. -/
def isName (run : List Char) : Bool :=
  run.head?.any (fun c => !c.isDigit) && !reservedWords.any (fun w => w.toList = run)

/-- Splits off a name. -/
def splitName (cs : List Char) : Option (List Char × List Char) :=
  let (run, rest) := splitWord cs
  if isName run then some (run, rest) else none

/-! ## Numbers -/

/-- Splits off a point followed by at least one digit, or nothing. -/
def splitFraction : List Char → List Char × List Char
  | '.' :: d :: cs =>
    if d.isDigit then ('.' :: d :: cs.takeWhile Char.isDigit, cs.dropWhile Char.isDigit)
    else ([], '.' :: d :: cs)
  | cs => ([], cs)

/-- Splits off an exponent mark, an optional sign and at least one digit, or nothing. -/
def splitExponent (cs : List Char) : List Char × List Char :=
  match cs with
  | e :: cs' =>
    let (sign, ds) := match cs' with
      | '+' :: ds => (['+'], ds)
      | '-' :: ds => (['-'], ds)
      | ds => ([], ds)
    if (e = 'e' || e = 'E') && ds.head?.any Char.isDigit then
      (e :: sign ++ ds.takeWhile Char.isDigit, ds.dropWhile Char.isDigit)
    else ([], cs)
  | [] => ([], [])

/-- Splits off an unsigned number. -/
def splitNumber (cs : List Char) : Option (List Char × List Char) :=
  let whole := cs.takeWhile Char.isDigit
  if whole.isEmpty then none
  else
    let (fraction, rest) := splitFraction (cs.dropWhile Char.isDigit)
    let (exponent, rest) := splitExponent rest
    some (whole ++ fraction ++ exponent, rest)

/-! ## Strings -/

/-- Splits off the contents of a string up to its closing quote, and the quote. -/
def splitContents (quote : Char) : List Char → Option (List Char × List Char)
  | [] => none
  | '\\' :: c :: cs => (splitContents quote cs).map fun (t, r) => ('\\' :: c :: t, r)
  | c :: cs =>
    if c = quote then some ([c], cs)
    else if c = '\\' then none
    else (splitContents quote cs).map fun (t, r) => (c :: t, r)

/-- Splits off a string in quotes of either kind. -/
def splitString : List Char → Option (List Char × List Char)
  | c :: cs =>
    if c = '"' || c = '\'' then (splitContents c cs).map fun (t, r) => (c :: t, r) else none
  | [] => none

/-- The character that a backslash and a letter stand for. -/
def unescapeChar : Char → Char
  | 'n' => '\n'
  | 't' => '\t'
  | 'r' => '\r'
  | '0' => Char.ofNat 0
  | c => c

/-- The contents of a string with its escapes resolved. -/
def unescape : List Char → List Char
  | '\\' :: c :: cs => unescapeChar c :: unescape cs
  | c :: cs => c :: unescape cs
  | [] => []

/-! ## Matchers -/

/-- A lexeme is matched as a whole, and a failure is reported where it would start. -/
def lexeme (split : List Char → Option (List Char × List Char)) : Matcher (List Char) :=
  (Matcher.scan split).named

/-- A given keyword. -/
def keyword (word : String) : Matcher Unit := do
  let _ ← lexeme (splitKeyword word)
  pure ()

/-- A name. -/
def name : Matcher String := do
  let cs ← lexeme splitName
  pure (String.ofList cs)

/-- The value of a number literal. -/
def numberValue (cs : List Char) : Float :=
  match Decimal.Numeral.read? cs with
  | some n => n.toFloat
  | none => 0.0

/-- The value of a string literal, given with its quotes. -/
def stringValue (cs : List Char) : String :=
  String.ofList (unescape (cs.drop 1).dropLast)

end VirtualComputer.Grammar
