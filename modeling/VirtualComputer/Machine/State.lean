/-!
# Lifecycle states

The states of a machine.  A record stores the code of a state, after states that differ only in
what happens to be pending have been collapsed.
-/

namespace VirtualComputer

inductive State where
  | stopped
  | suspended
  | yielded
  | sleeping
  | paused
  | running
  | stopping
  | synchronizedCall
  | synchronizedReturn
  | synchronizedReturnPaused
  | rebooting
  deriving DecidableEq, Repr

namespace State

/-- Every state, in order of the codes. -/
def all : List State := [
  .stopped, .suspended, .yielded, .sleeping, .paused, .running, .stopping, .synchronizedCall,
  .synchronizedReturn, .synchronizedReturnPaused, .rebooting]

/-- The code of a state. -/
def code : State → Nat
  | .stopped => 0
  | .suspended => 1
  | .yielded => 2
  | .sleeping => 3
  | .paused => 4
  | .running => 5
  | .stopping => 6
  | .synchronizedCall => 7
  | .synchronizedReturn => 8
  | .synchronizedReturnPaused => 9
  | .rebooting => 10

/-- The state with a code. -/
def ofCode? (code : Int) : Option State :=
  all.find? fun s => (s.code : Int) = code

/-- The name of a state. -/
def name : State → String
  | .stopped => "Stopped"
  | .suspended => "Suspended"
  | .yielded => "Yielded"
  | .sleeping => "Sleeping"
  | .paused => "Paused"
  | .running => "Running"
  | .stopping => "Stopping"
  | .synchronizedCall => "SynchronizedCall"
  | .synchronizedReturn => "SynchronizedReturn"
  | .synchronizedReturnPaused => "SynchronizedReturnPaused"
  | .rebooting => "Rebooting"

/-- The state that is saved: a machine that sleeps or is paused has yielded. -/
def collapsed : State → State
  | .paused | .sleeping => .yielded
  | .synchronizedReturnPaused => .synchronizedReturn
  | s => s

end State

end VirtualComputer
