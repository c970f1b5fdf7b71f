import VirtualComputer.Guest.Library
import VirtualComputer.Validation.LoopControl
import VirtualComputer.Validation.NestedYield
import VirtualComputer.Validation.UndefinedVariable

/-!
# Checking programs

All rules are checked and their reports listed by the position where they start; reports that
start at the same position keep the order of the rules.
-/

namespace VirtualComputer

/-- What one rule reports about a program. -/
def Rule.check (program : Stmt) : Rule → List Problem
  | .undefinedVariable => UndefinedVariable.inStmt globalNames program
  | .nestedYield => NestedYield.inStmt program
  | .loopControl => LoopControl.inStmt false program

/-- All problems of a program in order of position. -/
def Stmt.problems (program : Stmt) : List Problem :=
  (Rule.all.flatMap (Rule.check program)).mergeSort fun p q => p.span.start ≤ q.span.start

/-- Whether a program has errors and not merely warnings. -/
def Stmt.hasErrors (program : Stmt) : Bool :=
  program.problems.any Problem.isError

end VirtualComputer
