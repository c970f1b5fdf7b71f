import VirtualComputer.Guest.Scalar

/-!
# Signal queues

Signals wait in order of arrival.  A queue holds at most as many as its capacity; one that arrives
at a full queue is refused.
-/

namespace VirtualComputer

structure SignalQueue where
  capacity : Nat
  /-- The waiting signals, the next one first. -/
  signals : List Signal

namespace SignalQueue

def empty (capacity : Nat) : SignalQueue := ⟨capacity, []⟩

/-- Adds a signal, and whether there was room for it. -/
def push (s : Signal) (q : SignalQueue) : Bool × SignalQueue :=
  if q.signals.length < q.capacity then (true, { q with signals := q.signals ++ [s] })
  else (false, q)

/-- Takes the next signal. -/
def pop (q : SignalQueue) : Option Signal × SignalQueue :=
  match q.signals with
  | [] => (none, q)
  | s :: rest => (some s, { q with signals := rest })

/-- The queue without signals. -/
def clear (q : SignalQueue) : SignalQueue :=
  { q with signals := [] }

/-- The queue with other signals, as many as there is room for. -/
def replace (signals : List Signal) (q : SignalQueue) : SignalQueue :=
  { q with signals := signals.take q.capacity }

end SignalQueue

end VirtualComputer
