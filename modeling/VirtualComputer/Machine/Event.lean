import VirtualComputer.Guest.Snapshot
import VirtualComputer.Machine.Display
import VirtualComputer.Machine.Failure
import VirtualComputer.Machine.State

/-!
# Messages and events

What the world says to a machine, and what a machine tells the world: calls and announcements on
the network, printed text, changes of its displays, that it needs saving, and notices for a log.
-/

namespace VirtualComputer

/-! ## To a machine -/

/-- A message from the network. -/
structure Message where
  name : String
  /-- The address of the node that sent it. -/
  source : String
  data : List Scalar

/-- What a node may ask of a machine that is calling it. -/
inductive Request where
  | signal (s : Signal)
  | receive (m : Message)

/-! ## From a machine -/

/-- What a machine announces about its runs. -/
inductive Announcement where
  | started
  | stopped
  deriving DecidableEq, Repr

/-- The name of an announcement on the network. -/
def Announcement.name : Announcement → String
  | .started => "computer.started"
  | .stopped => "computer.stopped"

/-- What a machine reports for a log. -/
inductive Notice where
  | startFailed (f : Failure)
  | resumeOutstanding
  | resumeFrom (state : State)
  | nothingToResume
  | resumeFailed (f : Fault)
  | crashed (f : Fault)
  | leftGuard
  | callOutOfMemory
  | callFailed (text : String)
  | callBroke (f : Fault)
  | discarded (f : Failure)
  | snapshot (w : SnapshotWarning)

namespace Notice

/-- Whether a notice is about a fault of the machine itself. -/
def isError : Notice → Bool
  | .resumeOutstanding | .resumeFrom _ | .nothingToResume | .resumeFailed _ | .callBroke _ => true
  | _ => false

/-- What a notice says. -/
def text : Notice → String
  | .startFailed _ => "Machine failed to start"
  | .resumeOutstanding => (Failure.scheduling "resume requested while one is outstanding").message
  | .resumeFrom s => (Failure.scheduling ("resume from " ++ s.name)).message
  | .nothingToResume => (Failure.scheduling "no interpreter to resume").message
  | .resumeFailed _ => "Resume failed"
  | .crashed _ => "Machine crashed"
  | .leftGuard => "Kernel left its protected region"
  | .callOutOfMemory => "Synchronized call ran out of memory"
  | .callFailed _ => "Synchronized call failed"
  | .callBroke _ => "Synchronized call broke protocol"
  | .discarded _ => "Discarding saved machine"
  | .snapshot (.notText _) => "persist returned a non-string value"
  | .snapshot .noEntryPoint => "No persist entry point, writing an empty snapshot"
  | .snapshot (.failed _) => "persist failed, writing an empty snapshot"

/-- The error that a notice is about, if it names one. -/
def error? : Notice → Option String
  | .startFailed f | .discarded f => some f.message
  | .resumeFailed f | .crashed f | .callBroke f | .snapshot (.failed f) => some f.message
  | .callFailed text => some text
  | _ => none

end Notice

/-- What a machine tells the world. -/
inductive Event where
  /-- A call of a method of a node. -/
  | called (target method : String) (args : List Scalar)
  /-- A request made during a call, and how it was answered. -/
  | requested (r : Request) (answer : Option Scalar)
  | announced (a : Announcement)
  | printed (text : String)
  /-- The machine has changed in a way that needs saving. -/
  | marked
  /-- A call of one of its displays. -/
  | displayed (display : Nat) (call : DisplayCall)
  | noticed (n : Notice)

end VirtualComputer
