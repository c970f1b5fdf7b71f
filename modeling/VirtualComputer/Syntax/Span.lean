/-!
# Source positions

A span is a range of bytes of a source text with the line and column of its first character,
both counted from zero.
-/

namespace VirtualComputer

structure Span where
  start : Nat
  stop : Nat
  line : Nat
  column : Nat
  deriving DecidableEq, Repr

namespace Span

/-- The span of trees that were not read from a source text. -/
def none : Span := ⟨0, 0, 0, 0⟩

instance : Inhabited Span := ⟨.none⟩

/-- The smallest span that covers both. -/
def join (a b : Span) : Span :=
  let first := if a.start ≤ b.start then a else b
  ⟨first.start, max a.stop b.stop, first.line, first.column⟩

end Span

end VirtualComputer
