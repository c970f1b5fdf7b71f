import VirtualComputer.Guest

/-!
# Failures of machines

Every failure ends the run of a machine.  `Failure.message` is what is logged about it, and
`Failure.display` what the machine shows on its screens, if anything.
-/

namespace VirtualComputer

/-! ## Texts on screens -/

/-- What a screen shows about a failure that gives no reason. -/
def unknownError : String := "unknown error"

def notEnoughMemory : String := "not enough memory"

def kernelPanic : String := "kernel panic"

def protocolError : String := "protocol error"

/-! ## Failures -/

inductive Failure where
  | allocationLimit
  /-- The guest left the guarded region with an error. -/
  | guest (detail : String)
  /-- The guest and the machine disagree about a value. -/
  | protocol (detail : String)
  /-- A record cannot be restored. -/
  | corrupt (detail : String)
  /-- A resume in a state that allows none. -/
  | scheduling (detail : String)
  | boot (detail : String)
  | settings (detail : String)
  deriving DecidableEq, Repr

namespace Failure

/-- The text of a failure. -/
def message : Failure → String
  | .allocationLimit => "allocation limit exceeded"
  | .guest d => "runtime fault: " ++ d
  | .protocol d => "protocol violation: " ++ d
  | .corrupt d => "persisted state corrupt: " ++ d
  | .scheduling d => "scheduling bug: " ++ d
  | .boot d => "boot failed: " ++ d
  | .settings d => "configuration error: " ++ d

/-- What a failure puts on the screens. -/
def display : Failure → Option String
  | .allocationLimit => some notEnoughMemory
  | .guest d => some (if d = "" then unknownError else d)
  | .protocol _ => some protocolError
  | .boot d => some d
  | .corrupt _ | .scheduling _ | .settings _ => none

end Failure

end VirtualComputer
