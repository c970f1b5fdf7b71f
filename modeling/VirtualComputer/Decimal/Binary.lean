/-!
# Binary magnitudes

A magnitude is a mantissa times a power of two.  A format fixes how many bits a mantissa may
have and which powers are allowed; `Format.round` takes a quotient of natural numbers to the
nearest magnitude of the format, a tie going to the even mantissa.  `Binary.ofBits` and
`Binary.toBits` relate the magnitudes of the double format to the 64-bit encoding.
-/

namespace VirtualComputer.Decimal

/-- The magnitude `mantissa · 2 ^ exponent`. -/
structure Binary where
  mantissa : Nat
  exponent : Int
  deriving DecidableEq, Repr

/-- The bits of a mantissa and the least and greatest exponents of its unit. -/
structure Format where
  precision : Nat
  least : Int
  greatest : Int

/-- Doubles: 53 bits, units from `2 ^ -1074` to `2 ^ 971`. -/
def Format.double : Format := ⟨53, -1074, 971⟩

/-- Singles: 24 bits, units from `2 ^ -149` to `2 ^ 104`. -/
def Format.single : Format := ⟨24, -149, 104⟩

/-! ## Rounding -/

/-- The quotient rounded to the nearest integer, a tie to the even one. -/
def roundDiv (num den : Nat) : Nat :=
  let q := num / den
  let r := num % den
  match compare (2 * r) den with
  | .lt => q
  | .gt => q + 1
  | .eq => if q % 2 == 0 then q else q + 1

/-- The numerator and denominator of `(num / den) · 2 ^ -e`. -/
def scaleBack (num den : Nat) (e : Int) : Nat × Nat :=
  (num * Nat.pow 2 (-e).toNat, den * Nat.pow 2 e.toNat)

/-- The exponent of the unit in which `num / den` has as many bits as the format keeps. -/
def Format.unit (f : Format) (num den : Nat) : Int :=
  let e := (Nat.log2 num : Int) - (Nat.log2 den : Int) - f.precision
  let (n, d) := scaleBack num den e
  max f.least (if n < d * Nat.pow 2 f.precision then e else e + 1)

/-- The magnitude nearest to `num / den`; nothing if it lies beyond the greatest one. -/
def Format.round (f : Format) (num den : Nat) : Option Binary :=
  if num = 0 then some ⟨0, f.least⟩
  else
    let e := f.unit num den
    let (n, d) := scaleBack num den e
    let m := roundDiv n d
    let b : Binary :=
      if m = Nat.pow 2 f.precision then ⟨Nat.pow 2 (f.precision - 1), e + 1⟩ else ⟨m, e⟩
    if b.exponent ≤ f.greatest then some b else none

/-! ## The encoding of doubles -/

/-- The leading bit of the mantissa of a normal double, `2 ^ 52`, which is not encoded. -/
def hiddenBit : Nat := 0x10000000000000

/-- The magnitude of a finite double; the sign bit plays no part. -/
def Binary.ofBits (bits : UInt64) : Binary :=
  let e := ((bits >>> 52) &&& 0x7FF).toNat
  let f := (bits &&& 0xFFFFFFFFFFFFF).toNat
  if e = 0 then ⟨f, -1074⟩ else ⟨hiddenBit + f, (e : Int) - 1075⟩

/-- The bits of a magnitude of the double format, with a clear sign bit. -/
def Binary.toBits (b : Binary) : UInt64 :=
  if b.mantissa < hiddenBit then b.mantissa.toUInt64
  else ((b.exponent + 1075).toNat * hiddenBit + (b.mantissa - hiddenBit)).toUInt64

/-- The double with this magnitude and sign. -/
def Binary.toFloat (negative : Bool) (b : Binary) : Float :=
  let x := Float.ofBits b.toBits
  if negative then -x else x

/-- The double with this sign nearest to a magnitude, infinite if there is none. -/
def toFloatOrInf (negative : Bool) : Option Binary → Float
  | some b => b.toFloat negative
  | none => if negative then -(1.0 / 0.0) else 1.0 / 0.0

/-- The double nearest to an integer. -/
def ofInt (i : Int) : Float :=
  toFloatOrInf (i < 0) (Format.double.round i.natAbs 1)

/-- The double nearest to a natural number. -/
def ofNat (n : Nat) : Float :=
  ofInt n

end VirtualComputer.Decimal
