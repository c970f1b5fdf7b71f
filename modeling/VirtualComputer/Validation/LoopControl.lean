import VirtualComputer.Validation.Problem

/-!
# Loop control stays inside loops

`break` and `continue` mean something only in the body of a loop.
-/

namespace VirtualComputer.LoopControl

/-- The report of a loop control statement outside of every loop. -/
def stray (inLoop : Bool) (span : Span) (word : String) : List Problem :=
  if inLoop then [] else [.error .loopControl span ("'" ++ word ++ "' outside of a loop")]

mutual

/-- Every loop control statement outside of a loop, in a statement. -/
def inStmt (inLoop : Bool) : Stmt → List Problem
  | .break span => stray inLoop span "break"
  | .continue span => stray inLoop span "continue"
  | .block body _ => inBody inLoop body
  | .branch _ s t _ => inStmt inLoop s ++ inOptionStmt inLoop t
  | .loop _ s _ => inStmt true s
  | .attempt s _ t _ => inStmt inLoop s ++ inStmt inLoop t
  | .declare .. | .assign .. | .return .. | .expr .. => []

def inBody (inLoop : Bool) : List Stmt → List Problem
  | [] => []
  | s :: body => inStmt inLoop s ++ inBody inLoop body

def inOptionStmt (inLoop : Bool) : Option Stmt → List Problem
  | none => []
  | some s => inStmt inLoop s

end

end VirtualComputer.LoopControl
