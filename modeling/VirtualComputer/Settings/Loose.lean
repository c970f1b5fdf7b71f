import VirtualComputer.Decimal.Shortest
import VirtualComputer.Settings.Value
import VirtualComputer.Word

/-!
# Loose reading of settings

A setting is taken for what is expected of it as far as it can be: truth values and words like
`yes` count as numbers, floating numbers are rounded, and every scalar has a text.
-/

namespace VirtualComputer.Setting

/-- The number that a word for a truth value counts as. -/
def truthNumber? (s : String) : Option Nat :=
  let word := s.toLower
  if word = "true" ∨ word = "on" ∨ word = "yes" then some 1
  else if word = "false" ∨ word = "off" ∨ word = "no" then some 0
  else none

/-- A whole number of a width, written in a text. -/
def within? (w : Word) (s : String) : Option Int := do
  let i ← Decimal.integer? s
  if w.holds i then some i else none

/-- The signed word that a setting counts as. -/
def asInt? : Setting → Option Int
  | .int i => some i
  | .bool b => some b.toInt
  | .float x => some x.round.toInt64.toInt
  | .str s =>
    match truthNumber? s with
    | some n => some n
    | none => within? .signed64 s
  | _ => none

/-- The unsigned word that a setting counts as. -/
def asNat? : Setting → Option Nat
  | .int i => if 0 ≤ i then some i.toNat else none
  | .bool b => some b.toNat
  | .float x => some x.round.toUInt64.toNat
  | .str s =>
    match truthNumber? s with
    | some n => some n
    | none => if s.startsWith "-" then none else (within? .unsigned64 s).map Int.toNat
  | _ => none

/-- The number that a setting counts as, if it fits 32 bits with a sign. -/
def asShortInt? (v : Setting) : Option Int :=
  v.asInt?.filter Word.signed32.holds

/-- The number that a setting counts as, if it fits 32 bits without a sign. -/
def asShortNat? (v : Setting) : Option Nat :=
  v.asNat?.filter fun n => Word.unsigned32.holds n

/-- The floating number that a setting counts as. -/
def asFloat? : Setting → Option Float
  | .int i => some (Decimal.ofInt i)
  | .bool b => some (Decimal.ofNat b.toNat)
  | .float x => some x
  | .str s =>
    match truthNumber? s with
    | some n => some (Decimal.ofNat n)
    | none => Decimal.float? s
  | _ => none

/-- The text of a setting. -/
def asStr? : Setting → Option String
  | .int i => some (Decimal.integerText i)
  | .bool b => some (if b then "true" else "false")
  | .float x => some (Decimal.shown x)
  | .str s => some s
  | _ => none

end VirtualComputer.Setting
