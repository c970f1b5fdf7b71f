import VirtualComputer.Decimal.Numeral
import VirtualComputer.Syntax.Tree

/-!
# Problems of programs

What a check of a program reports: where, how grave, what, and under which rule.
-/

namespace VirtualComputer

/-- How grave a problem is; only errors keep a program from being loaded. -/
inductive Severity where
  | error
  | warning
  deriving DecidableEq, Repr

/-- The name of a severity. -/
def Severity.name : Severity → String
  | .error => "error"
  | .warning => "warning"

/-- The rules that programs are checked against. -/
inductive Rule where
  | undefinedVariable
  | nestedYield
  | loopControl
  deriving DecidableEq, Repr

namespace Rule

/-- All rules, in the order in which they are checked. -/
def all : List Rule := [.undefinedVariable, .nestedYield, .loopControl]

/-- The identifier of a rule. -/
def id : Rule → String
  | .undefinedVariable => "undefined-variable"
  | .nestedYield => "nested-yield"
  | .loopControl => "loop-control"

/-- What a rule demands. -/
def description : Rule → String
  | .undefinedVariable => "Variables must be declared before use"
  | .nestedYield => "yield must be the whole value of a statement"
  | .loopControl => "break and continue must appear inside a loop"

end Rule

/-- One problem found in a program. -/
structure Problem where
  span : Span
  severity : Severity
  message : String
  /-- The identifier of the rule that reported it. -/
  rule : String
  deriving DecidableEq, Repr

namespace Problem

/-- An error reported by a rule. -/
def error (rule : Rule) (span : Span) (message : String) : Problem :=
  ⟨span, .error, message, rule.id⟩

def isError (p : Problem) : Bool :=
  p.severity = .error

/-- The text of a problem, with lines and columns counted from one. -/
def text (p : Problem) : String :=
  p.severity.name ++ " at " ++ Decimal.integerText (p.span.line + 1) ++ ":" ++
    Decimal.integerText (p.span.column + 1) ++ ": " ++ p.message ++ " [" ++ p.rule ++ "]"

end Problem

end VirtualComputer
