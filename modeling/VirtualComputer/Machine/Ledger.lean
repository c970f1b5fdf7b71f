import VirtualComputer.Decimal.Numeral
import VirtualComputer.Word

/-!
# Accounting

What a machine keeps of its memory and time.  The world publishes its clock in ticks; uptime is
the world time since the run started, and processor time is counted in nanoseconds.  Sums that do
not fit their width wrap round.
-/

namespace VirtualComputer

structure Ledger where
  /-- The bytes of the kernel and of the fixed overhead. -/
  kernelMemory : Nat
  /-- Nanoseconds of processor time used by the guest. -/
  cpuTime : Int
  /-- The world time at which the run started. -/
  started : Int
  worldTime : Int
  deriving DecidableEq, Repr

namespace Ledger

def empty : Ledger := ⟨0, 0, 0, 0⟩

/-- The memory ceiling for a budget of user memory. -/
def ceiling (l : Ledger) (budget : Nat) : Nat :=
  min (l.kernelMemory + budget) Word.unsigned64.greatest.toNat

/-- The ledger with some more nanoseconds of processor time. -/
def spend (l : Ledger) (nanoseconds : Nat) : Ledger :=
  { l with cpuTime := Word.signed64.wrap (l.cpuTime + nanoseconds) }

/-- The ledger after a resume that took some processor time. -/
def charge (l : Ledger) (nanoseconds : Nat) : Ledger :=
  l.spend (min nanoseconds Word.signed64.greatest.toNat)

/-- Seconds of processor time, as far as it has been counted. -/
def clock (l : Ledger) : Float :=
  Decimal.ofInt l.cpuTime * 1e-9

/-- Seconds of world time since the run started, none if the world went back. -/
def uptime (l : Ledger) (ticksPerSecond : Nat) : Float :=
  Decimal.ofNat (Word.signed64.wrap (l.worldTime - l.started)).toNat /
    Decimal.ofNat (max ticksPerSecond 1)

/-- The ledger of a machine without a run; the world time is not the machine's. -/
def reset (l : Ledger) : Ledger :=
  ⟨0, 0, 0, l.worldTime⟩

end Ledger

end VirtualComputer
