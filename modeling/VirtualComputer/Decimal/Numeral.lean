import VirtualComputer.Decimal.Binary

/-!
# Decimal numerals

A numeral is a text of digits with an optional sign, point and power of ten.  `Numeral.read?`
splits such a text, `Numeral.toFloat` is the double nearest to what it denotes, and
`Numeral.isStrict` singles out the numerals that data texts allow.
-/

namespace VirtualComputer.Decimal

/-! ## Digits -/

/-- The number that a run of decimal digits denotes. -/
def ofDigits (cs : List Char) : Nat :=
  cs.foldl (fun n c => 10 * n + (c.toNat - 48)) 0

/-- The decimal digits of a number, without leading zeros. -/
def toDigits (n : Nat) : List Char :=
  Nat.toDigits 10 n

/-- The text of an integer. -/
def integerText (i : Int) : String :=
  if i < 0 then "-" ++ String.ofList (toDigits i.natAbs) else String.ofList (toDigits i.toNat)

/-! ## Values of numerals -/

/-- The magnitude of `digits · 10 ^ exponent` in a format, nothing if it is too large.  Exponents
far outside the range of doubles are decided from the place of the leading digit alone. -/
def magnitude (f : Format) (digits : Nat) (exponent : Int) : Option Binary :=
  let top := (toDigits digits).length + exponent
  if digits = 0 || top < -400 then some ⟨0, f.least⟩
  else if 400 < top then none
  else f.round (digits * Nat.pow 10 exponent.toNat) (Nat.pow 10 (-exponent).toNat)

/-- A numeral split at its sign, point and exponent mark. -/
structure Numeral where
  /-- Whether a sign is written, and if so whether it is a minus. -/
  sign : Option Bool
  whole : List Char
  /-- The digits after the point, if a point is written. -/
  fraction : Option (List Char)
  /-- The power of ten, if one is written. -/
  exponent : Option Int
  deriving DecidableEq, Repr

namespace Numeral

/-- Splits off an optional sign; `true` stands for a minus. -/
def takeSign : List Char → Option Bool × List Char
  | '+' :: cs => (some false, cs)
  | '-' :: cs => (some true, cs)
  | cs => (none, cs)

/-- Splits off a point and the digits after it. -/
def takeFraction : List Char → Option (List Char) × List Char
  | '.' :: cs => (some (cs.takeWhile Char.isDigit), cs.dropWhile Char.isDigit)
  | cs => (none, cs)

/-- What follows the digits: nothing, or an exponent mark with at least one digit. -/
def exponent? : List Char → Option (Option Int)
  | [] => some none
  | c :: cs =>
    if c = 'e' || c = 'E' then
      let (sign, ds) := takeSign cs
      if ds.isEmpty || !ds.all Char.isDigit then none
      else some (some (if sign = some true then -(ofDigits ds : Int) else ofDigits ds))
    else none

/-- Splits a text that is a numeral: at least one digit before or after an optional point. -/
def read? (cs : List Char) : Option Numeral :=
  let (sign, cs) := takeSign cs
  let whole := cs.takeWhile Char.isDigit
  let (fraction, rest) := takeFraction (cs.dropWhile Char.isDigit)
  if whole.isEmpty && (fraction.getD []).isEmpty then none
  else (exponent? rest).map fun exponent => ⟨sign, whole, fraction, exponent⟩

/-- Whether a minus is written. -/
def negative (n : Numeral) : Bool :=
  n.sign = some true

/-- The digits of the numeral, read without its point. -/
def digits (n : Numeral) : Nat :=
  ofDigits (n.whole ++ n.fraction.getD [])

/-- The power of ten that places the last of the digits. -/
def scale (n : Numeral) : Int :=
  n.exponent.getD 0 - (n.fraction.getD []).length

/-- The magnitude of the numeral in a format, nothing if it is too large. -/
def round (f : Format) (n : Numeral) : Option Binary :=
  magnitude f n.digits n.scale

/-- The double nearest to the numeral, infinite beyond the greatest. -/
def toFloat (n : Numeral) : Float :=
  toFloatOrInf n.negative (n.round .double)

/-- The numeral taken to the nearest single first, and then as a double. -/
def toSingle (n : Numeral) : Float :=
  toFloatOrInf n.negative <| (n.round .single).bind fun b =>
    Format.double.round (b.mantissa * Nat.pow 2 b.exponent.toNat) (Nat.pow 2 (-b.exponent).toNat)

/-- Data texts allow no plus sign, no leading zero, and a point only between digits. -/
def isStrict (n : Numeral) : Bool :=
  n.sign ≠ some false && (n.whole = ['0'] || n.whole.head?.any (· ≠ '0')) && n.fraction ≠ some []

/-- The integer that a numeral without point and exponent denotes. -/
def toInt? (n : Numeral) : Option Int :=
  if n.fraction.isNone && n.exponent.isNone then
    some (if n.negative then -(n.digits : Int) else n.digits)
  else none

end Numeral

/-- Whether a text spells a word in letters of either case. -/
def spells (word : String) (cs : List Char) : Bool :=
  cs.map Char.toLower = word.toList

/-- Reads a numeral or, in letters of either case, an infinity or the undefined number. -/
def float? (text : String) : Option Float :=
  match Numeral.read? text.toList with
  | some n => some n.toFloat
  | none =>
    let (sign, cs) := Numeral.takeSign text.toList
    let signed (x : Float) : Float := if sign = some true then -x else x
    if spells "inf" cs || spells "infinity" cs then some (signed (1.0 / 0.0))
    else if spells "nan" cs then some (signed (0.0 / 0.0))
    else none

/-- Reads a single, as `float?` reads a double. -/
def single? (text : String) : Option Float :=
  match Numeral.read? text.toList with
  | some n => some n.toSingle
  | none => float? text

/-- Reads an integer: digits with an optional sign. -/
def integer? (text : String) : Option Int :=
  let (sign, cs) := Numeral.takeSign text.toList
  if cs.isEmpty || !cs.all Char.isDigit then none
  else some (if sign = some true then -(ofDigits cs : Int) else ofDigits cs)

end VirtualComputer.Decimal
