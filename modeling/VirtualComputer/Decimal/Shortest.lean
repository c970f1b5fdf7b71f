import VirtualComputer.Decimal.Numeral

/-!
# Shortest decimals

The reals that round to a magnitude form an interval.  `shortest` finds the fewest digits of a
decimal in it: it tries the one-digit decimals next to the exact value, then the two-digit ones,
and so on; the exact value itself is the last of them, so the search always ends with an answer.
A layout record says how the digits are set out, and has one value for each kind of text.
-/

namespace VirtualComputer.Decimal

/-- The decimal `digits · 10 ^ exponent`. -/
structure Scaled where
  digits : Nat
  exponent : Int
  deriving DecidableEq, Repr

/-! ## The decimals that read back -/

/-- The exact decimal value of a magnitude. -/
def Binary.exact (b : Binary) : Scaled :=
  if 0 ≤ b.exponent then ⟨b.mantissa * Nat.pow 2 b.exponent.toNat, 0⟩
  else ⟨b.mantissa * Nat.pow 5 (-b.exponent).toNat, b.exponent⟩

/-- Compares `a · 10 ^ i` with `n · 2 ^ j`. -/
def compareScaled (a : Nat) (i : Int) (n : Nat) (j : Int) : Ordering :=
  compare (a * Nat.pow 10 i.toNat * Nat.pow 2 (-j).toNat)
    (n * Nat.pow 2 j.toNat * Nat.pow 10 (-i).toNat)

/-- Below a power of two the next double is half as far away as above it. -/
def Binary.narrowBelow (b : Binary) : Bool :=
  b.mantissa = hiddenBit && -1074 < b.exponent

/-- Whether a decimal lies among the reals that round to the magnitude: from halfway to the
neighbour below to halfway to the neighbour above, the ends included when the mantissa is even. -/
def Binary.readsBack (b : Binary) (d : Scaled) : Bool :=
  let low := if b.narrowBelow then 4 * b.mantissa - 1 else 4 * b.mantissa - 2
  let high := 4 * b.mantissa + 2
  let closed := b.mantissa % 2 == 0
  let atLow := compareScaled d.digits d.exponent low (b.exponent - 2)
  let atHigh := compareScaled d.digits d.exponent high (b.exponent - 2)
  (atLow == .gt || (closed && atLow == .eq)) && (atHigh == .lt || (closed && atHigh == .eq))

/-! ## The search -/

/-- Which of two equally near decimals is taken. -/
inductive Tie
  | toEven
  | upward
  deriving DecidableEq, Repr

/-- Of the decimals on one grid next to the exact value, the nearer one that reads back. -/
def Binary.pick (tie : Tie) (b : Binary) (dropped : Nat) : Option Scaled :=
  let x := b.exact
  let grid := Nat.pow 10 dropped
  let below : Scaled := ⟨x.digits / grid, x.exponent + dropped⟩
  let above : Scaled := ⟨x.digits / grid + 1, x.exponent + dropped⟩
  match b.readsBack below, b.readsBack above with
  | true, false => some below
  | false, true => some above
  | false, false => none
  | true, true =>
    match compare (2 * x.digits) ((below.digits + above.digits) * grid), tie with
    | .lt, _ => some below
    | .gt, _ => some above
    | .eq, .upward => some above
    | .eq, .toEven => if below.digits % 2 == 0 then some below else some above

/-- Moves trailing zeros of the digits into the exponent, as many as the bound allows. -/
def Scaled.strip : Nat → Scaled → Scaled
  | 0, d => d
  | n + 1, d =>
    if d.digits ≠ 0 ∧ d.digits % 10 = 0 then strip n ⟨d.digits / 10, d.exponent + 1⟩ else d

/-- A decimal with the fewest digits among those that round to the magnitude. -/
def Binary.shortest (tie : Tie) (b : Binary) : Scaled :=
  let count := (toDigits b.exact.digits).length
  let found := (List.range count).findSome? fun i => b.pick tie (count - 1 - i)
  (found.getD b.exact).strip count

/-! ## Layouts -/

/-- How the chosen digits are set out. -/
structure Layout where
  tie : Tie
  /-- Whether a number whose leading digit has this place is written without a power of ten. -/
  positional : Int → Bool
  /-- What follows the digits of a whole number that is written without a power of ten. -/
  wholeEnd : List Char

/-- Text shown to people and guests is always positional, and whole numbers have no point. -/
def Layout.shown : Layout where
  tie := .upward
  positional _ := true
  wholeEnd := []

/-- Stored text is positional from `0.00001` up to sixteen digits, and always has a point there. -/
def Layout.stored : Layout where
  tie := .toEven
  positional place := -5 ≤ place && place ≤ 15
  wholeEnd := ['.', '0']

/-- Digits with the point at its place and zeros between. -/
def Layout.plain (l : Layout) (ds : List Char) (exponent : Int) : List Char :=
  if 0 ≤ exponent then ds ++ List.replicate exponent.toNat '0' ++ l.wholeEnd
  else
    let places := (-exponent).toNat
    if places < ds.length then ds.take (ds.length - places) ++ '.' :: ds.drop (ds.length - places)
    else '0' :: '.' :: List.replicate (places - ds.length) '0' ++ ds

/-- One digit before the point, and the power of ten with its sign. -/
def scientific (ds : List Char) (place : Int) : List Char :=
  let point := if ds.length ≤ 1 then [] else ['.']
  ds.take 1 ++ point ++ ds.drop 1 ++ ['e', if place < 0 then '-' else '+'] ++ toDigits place.natAbs

/-- Sets out a decimal. -/
def Layout.write (l : Layout) (d : Scaled) : List Char :=
  let ds := toDigits d.digits
  let place := d.exponent + ds.length - 1
  if l.positional place then l.plain ds d.exponent else scientific ds place

/-- The text of a finite double, with its sign. -/
def Layout.finite (l : Layout) (x : Float) : String :=
  let bits := x.toBits
  let b := Binary.ofBits bits
  let text := l.write (if b.mantissa = 0 then ⟨0, 0⟩ else b.shortest l.tie)
  String.ofList (if bits >>> 63 = 1 then '-' :: text else text)

/-- The text of a double as people and guests see it. -/
def shown (x : Float) : String :=
  if x.isNaN then "NaN"
  else if x.isInf then if x < 0 then "-inf" else "inf"
  else Layout.shown.finite x

/-- The stored text of a double; data texts have no infinities and no undefined number. -/
def stored? (x : Float) : Option String :=
  if x.isFinite then some (Layout.stored.finite x) else none

end VirtualComputer.Decimal
