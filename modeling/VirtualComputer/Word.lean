/-!
# Words

The widths of the whole numbers that records and settings hold.
-/

namespace VirtualComputer

inductive Word where
  | byte
  | signed32
  | unsigned32
  | signed64
  | unsigned64
  deriving DecidableEq, Repr

namespace Word

/-- The least number of a width. -/
def least : Word → Int
  | .byte | .unsigned32 | .unsigned64 => 0
  | .signed32 => -0x80000000
  | .signed64 => -0x8000000000000000

/-- The greatest number of a width. -/
def greatest : Word → Int
  | .byte => 0xFF
  | .signed32 => 0x7FFFFFFF
  | .unsigned32 => 0xFFFFFFFF
  | .signed64 => 0x7FFFFFFFFFFFFFFF
  | .unsigned64 => 0xFFFFFFFFFFFFFFFF

/-- Whether a number fits a width. -/
def holds (w : Word) (i : Int) : Bool :=
  w.least ≤ i && i ≤ w.greatest

/-- The number of a width that differs from a given one by a multiple of the numbers of that width. -/
def wrap (w : Word) (i : Int) : Int :=
  w.least + (i - w.least) % (w.greatest - w.least + 1)

theorem holds_unsigned64 {n : Nat} : unsigned64.holds n ↔ n < 0x10000000000000000 := by
  rw [holds, Bool.and_eq_true, decide_eq_true_eq, decide_eq_true_eq, least, greatest]
  omega

theorem wrap_unsigned64 (n : Nat) : (unsigned64.wrap n).toNat = n % 0x10000000000000000 := by
  simp only [wrap, least, greatest]
  omega

end Word

end VirtualComputer
