import VirtualComputer.Guest.Value

/-!
# Guest errors and faults

A mistake is an error that a guest can catch; its value carries a code and a message.  A fault
ends a resume and cannot be caught.
-/

namespace VirtualComputer

/-- What a guest can do wrong. -/
inductive Mistake where
  | missingArgs (native : Native) (expected got : Nat)
  | wrongType (native : Native) (expected : String) (got : Kind)
  | divisionByZero
  | moduloByZero
  | incomparable (left right : Kind)
  | unsendable (got : Kind)
  | undefined (name : String)
  | undeclared (name : String)
  | notCallable (got : Kind)
  | noAccess (container key : Kind)
  | outOfRange (index : Float)
  | strayControl
  /-- A native was called that must be handed to the world instead. -/
  | synchronizedOnly (native : Native)
  /-- A native was called that needs a world where there is none. -/
  | unavailable (native : Native)
  /-- A text that stores no value, and what is wrong with it. -/
  | unreadable (complaint : String)
  /-- An error raised by the guest itself. -/
  | raised (message : String)

namespace Mistake

/-- The code of a mistake. -/
def code : Mistake → String
  | .missingArgs .. => "WRONG_ARG_COUNT"
  | .wrongType .. | .divisionByZero | .moduloByZero | .incomparable .. | .unsendable _ =>
    "WRONG_ARG_TYPE"
  | .undefined _ | .undeclared _ => "UNDEFINED_VARIABLE"
  | .notCallable _ => "NOT_CALLABLE"
  | .noAccess .. | .outOfRange _ => "BAD_ACCESS"
  | .strayControl => "BAD_CONTROL"
  | .synchronizedOnly _ | .unavailable _ => "SYNCHRONIZED_ONLY"
  | .unreadable _ => "SERIALIZATION"
  | .raised _ => "USER"

/-- The message of a mistake. -/
def message : Mistake → String
  | .missingArgs n expected got =>
    n.name ++ " expects at least " ++ Decimal.integerText expected ++ " argument(s), got " ++
      Decimal.integerText got
  | .wrongType n expected got => n.name ++ " expects a " ++ expected ++ ", got " ++ got.name
  | .divisionByZero => "division by zero"
  | .moduloByZero => "modulo by zero"
  | .incomparable l r => "cannot compare " ++ l.name ++ " with " ++ r.name
  | .unsendable k => "cannot send a " ++ k.name ++ " to a component"
  | .undefined x => "undefined variable '" ++ x ++ "'"
  | .undeclared x => "cannot assign to undeclared variable '" ++ x ++ "'"
  | .notCallable k => "cannot call a " ++ k.name ++ " value"
  | .noAccess c k => "cannot index " ++ c.name ++ " with " ++ k.name
  | .outOfRange x => "list index " ++ Decimal.shown x ++ " out of range"
  | .strayControl => "break or continue outside of a loop"
  | .synchronizedOnly n => n.name ++ " must be yielded to the host"
  | .unavailable n => n.name ++ " is not available here"
  | .unreadable complaint => complaint
  | .raised m => m

/-- The error value of a mistake. -/
def toVal (m : Mistake) : Val :=
  .error m.code m.message

end Mistake

/-- A failure that ends a resume and cannot be caught by the guest. -/
inductive Fault where
  /-- A write to a variable crossed the memory ceiling. -/
  | allocationLimit
  /-- The guest left the guarded region with an error. -/
  | runtime (detail : String)
  /-- A state that the interpreter's own invariants rule out. -/
  | internal (detail : String)
  /-- A value crossed the boundary in the wrong shape. -/
  | protocol (detail : String)
  /-- The bound on the number of steps was reached. -/
  | outOfSteps
  deriving DecidableEq, Repr

/-- The text of a fault. -/
def Fault.message : Fault → String
  | .allocationLimit => "memory limit exceeded"
  | .runtime d => "runtime fault: " ++ d
  | .internal d => "internal fault: " ++ d
  | .protocol d => "protocol violation: " ++ d
  | .outOfSteps => "step limit reached"

end VirtualComputer
