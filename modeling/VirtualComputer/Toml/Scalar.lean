import VirtualComputer.Decimal.Numeral
import VirtualComputer.Toml.Value
import VirtualComputer.Word

/-!
# Scalars of TOML texts

Numbers, truth values, dates and times are written without quotes and are told apart by their
form.  Digits may be grouped by single underscores, whole numbers may be written in base 16, 8 or
2, and a moment is a date, a time of day, or both with an optional offset.
-/

namespace VirtualComputer.Toml

/-! ## Numbers -/

/-- The digits of a run in which single underscores may stand between digits. -/
def ungroup? (isDigit : Char → Bool) : List Char → Option (List Char)
  | [] => none
  | [c] => if isDigit c then some [c] else none
  | c :: '_' :: cs => if isDigit c then (ungroup? isDigit cs).map (c :: ·) else none
  | c :: cs => if isDigit c then (ungroup? isDigit cs).map (c :: ·) else none

/-- The value of a digit of a base up to sixteen. -/
def digitValue (c : Char) : Nat :=
  if c.isDigit then c.toNat - 48
  else if 'a' ≤ c ∧ c ≤ 'f' then c.toNat - 87
  else if 'A' ≤ c ∧ c ≤ 'F' then c.toNat - 55
  else 16

/-- A whole number must fit a signed word of 64 bits. -/
def integer? (i : Int) : Option Toml :=
  if Word.signed64.holds i then some (.int i) else none

/-- A whole number written in a base. -/
def based? (base : Nat) (cs : List Char) : Option Toml := do
  let ds ← ungroup? (fun c => digitValue c < base) cs
  integer? (ds.foldl (fun n c => base * n + digitValue c) 0 : Nat)

/-- Digits of a whole part, which has no leading zeros. -/
def whole? (cs : List Char) : Option (List Char) := do
  let ds ← ungroup? Char.isDigit cs
  if ds.length = 1 ∨ ds.head? ≠ some '0' then some ds else none

/-- A whole number in base ten with an optional sign. -/
def decimal? (cs : List Char) : Option Toml := do
  let (sign, cs) := Decimal.Numeral.takeSign cs
  let n := Decimal.ofDigits (← whole? cs)
  integer? (if sign = some true then -n else n)

/-- The power of ten after an exponent mark. -/
def power? (cs : List Char) : Option Int := do
  let (sign, cs) := Decimal.Numeral.takeSign cs
  let n := Decimal.ofDigits (← ungroup? Char.isDigit cs)
  return if sign = some true then -n else n

/-- Splits a text at the first character of a class, which is dropped. -/
def splitAt? (isMark : Char → Bool) (cs : List Char) : List Char × Option (List Char) :=
  match cs.dropWhile fun c => !isMark c with
  | [] => (cs, none)
  | _ :: rest => (cs.takeWhile fun c => !isMark c, some rest)

/-- A part that may be absent but must be well formed. -/
def optionally? {α : Type} (f : List Char → Option α) : Option (List Char) → Option (Option α)
  | none => some none
  | some cs => (f cs).map some

/-- The numeral of a floating number: a whole part, and a fraction or a power of ten or both. -/
def numeral? (cs : List Char) : Option Decimal.Numeral := do
  let (sign, cs) := Decimal.Numeral.takeSign cs
  let (mantissa, power) := splitAt? (fun c => c = 'e' || c = 'E') cs
  let (whole, fraction) := splitAt? (· = '.') mantissa
  guard (power.isSome || fraction.isSome)
  return {
    sign
    whole := ← whole? whole
    fraction := ← optionally? (ungroup? Char.isDigit) fraction
    exponent := ← optionally? power? power }

/-- A floating number; one that is too large is refused. -/
def floating? (cs : List Char) : Option Toml := do
  let x := (← numeral? cs).toFloat
  if x == 1.0 / 0.0 then none else some (.float x)

/-- An infinity or the undefined number. -/
def special? (cs : List Char) : Option Toml :=
  let (sign, cs) := Decimal.Numeral.takeSign cs
  let signed (x : Float) : Toml := .float (if sign = some true then -x else x)
  if cs = ['i', 'n', 'f'] then some (signed (1.0 / 0.0))
  else if cs = ['n', 'a', 'n'] then some (signed (0.0 / 0.0))
  else none

/-! ## Moments -/

/-- The number of two digits at the start of a text, and the rest. -/
def pair? : List Char → Option (Nat × List Char)
  | a :: b :: cs =>
    if a.isDigit && b.isDigit then some (10 * (a.toNat - 48) + (b.toNat - 48), cs) else none
  | _ => none

/-- A number of two digits within bounds. -/
def pairWithin? (low high : Nat) (cs : List Char) : Option (Nat × List Char) := do
  let (n, rest) ← pair? cs
  if low ≤ n ∧ n ≤ high then some (n, rest) else none

/-- What follows an expected character. -/
def after? (c : Char) : List Char → Option (List Char)
  | d :: cs => if c = d then some cs else none
  | [] => none

/-- The number of days of a month. -/
def daysIn (year month : Nat) : Nat :=
  if month = 2 then
    if year % 4 = 0 ∧ (year % 100 ≠ 0 ∨ year % 400 = 0) then 29 else 28
  else if month = 4 ∨ month = 6 ∨ month = 9 ∨ month = 11 then 30
  else 31

/-- The date at the start of a text, as it is written, and the rest. -/
def date? (cs : List Char) : Option (List Char × List Char) := do
  let (century, rest) ← pair? cs
  let (year, rest) ← pair? rest
  let (month, rest) ← pairWithin? 1 12 (← after? '-' rest)
  let (_, rest) ← pairWithin? 1 (daysIn (100 * century + year) month) (← after? '-' rest)
  return (cs.take 10, rest)

/-- The fraction of a second after a point: nine places count, and zeros at the end do not. -/
def secondFraction? : List Char → Option (List Char × List Char)
  | '.' :: cs =>
    let ds := cs.takeWhile Char.isDigit
    let kept := ((ds.take 9).reverse.dropWhile (· = '0')).reverse
    if ds.isEmpty then none
    else some (if kept.isEmpty then [] else '.' :: kept, cs.dropWhile Char.isDigit)
  | cs => some ([], cs)

/-- The time of day at the start of a text, in its normal form, and the rest. -/
def time? (cs : List Char) : Option (List Char × List Char) := do
  let (_, rest) ← pairWithin? 0 23 cs
  let (_, rest) ← pairWithin? 0 59 (← after? ':' rest)
  let (_, rest) ← pairWithin? 0 60 (← after? ':' rest)
  let (fraction, rest) ← secondFraction? rest
  return (cs.take 8 ++ fraction, rest)

/-- The offset that ends a text, in its normal form. -/
def offset? : List Char → Option (List Char)
  | [] => some []
  | ['Z'] | ['z'] => some ['Z']
  | c :: cs => do
    guard (c = '+' || c = '-')
    let (hours, rest) ← pairWithin? 0 23 cs
    let (minutes, rest) ← pairWithin? 0 59 (← after? ':' rest)
    guard rest.isEmpty
    return (if hours = 0 ∧ minutes = 0 then '+' else c) :: cs

/-- What follows a date: nothing, or a time of day with an optional offset. -/
def afterDate? : List Char → Option (List Char)
  | [] => some []
  | c :: cs => do
    guard (c = 'T' || c = 't' || c = ' ')
    let (time, rest) ← time? cs
    return 'T' :: time ++ (← offset? rest)

/-- A date, a time of day, or both. -/
def moment? (cs : List Char) : Option Toml :=
  match date? cs with
  | some (date, rest) =>
    (afterDate? rest).map fun text => .moment (String.ofList (date ++ text))
  | none =>
    match time? cs with
    | some (time, []) => some (.moment (String.ofList time))
    | _ => none

/-! ## All scalars without quotes -/

/-- The scalar that a word denotes. -/
def scalar? (cs : List Char) : Option Toml :=
  if cs = ['t', 'r', 'u', 'e'] then some (.bool true)
  else if cs = ['f', 'a', 'l', 's', 'e'] then some (.bool false)
  else match cs with
    | '0' :: 'x' :: ds => based? 16 ds
    | '0' :: 'o' :: ds => based? 8 ds
    | '0' :: 'b' :: ds => based? 2 ds
    | cs => (special? cs).or ((moment? cs).or ((decimal? cs).or (floating? cs)))

end VirtualComputer.Toml
