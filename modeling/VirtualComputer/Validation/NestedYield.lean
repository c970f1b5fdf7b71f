import VirtualComputer.Validation.Problem

/-!
# Yields are whole values

A statement that suspends is evaluated again when it is resumed.  A `yield` may therefore only be
the whole value of a statement, so that nothing is done twice, and its operand may contain none.
-/

namespace VirtualComputer.NestedYield

/-- The report of a `yield` inside another expression. -/
def nested (span : Span) : Problem :=
  .error .nestedYield span
    "yield cannot be nested inside another expression; assign it to a variable first"

mutual

/-- Every `yield` inside an expression. -/
def inExpr : Expr → List Problem
  | .yield e span => nested span :: inOption e
  | .member e _ _ => inExpr e
  | .index e k _ => inExpr e ++ inExpr k
  | .call f es _ => inExpr f ++ inExprs es
  | .logic _ l r _ => inExpr l ++ inExpr r
  | .list es _ => inExprs es
  | .object ps _ => inProperties ps
  | .ident .. | .bool .. | .num .. | .str .. | .null _ => []

def inExprs : List Expr → List Problem
  | [] => []
  | e :: es => inExpr e ++ inExprs es

def inProperties : List (String × Expr) → List Problem
  | [] => []
  | (_, e) :: ps => inExpr e ++ inProperties ps

def inOption : Option Expr → List Problem
  | none => []
  | some e => inExpr e

end

/-- Every `yield` below the value of a statement, which may be one itself. -/
def inValue : Expr → List Problem
  | .yield e _ => inOption e
  | e => inExpr e

/-- Every misplaced `yield` in an optional value. -/
def inOptionValue : Option Expr → List Problem
  | none => []
  | some e => inValue e

/-- Every `yield` in a path segment. -/
def inSegment : Segment → List Problem
  | .property .. => []
  | .key e _ => inExpr e

mutual

/-- Every misplaced `yield` in a statement. -/
def inStmt : Stmt → List Problem
  | .block body _ => inBody body
  | .declare _ init _ => inOptionValue init
  | .assign _ path e _ => path.flatMap inSegment ++ inValue e
  | .return e _ => inOptionValue e
  | .expr e _ => inValue e
  | .branch e s t _ => inExpr e ++ inStmt s ++ inOptionStmt t
  | .loop e s _ => inExpr e ++ inStmt s
  | .attempt s _ t _ => inStmt s ++ inStmt t
  | .break _ | .continue _ => []

def inBody : List Stmt → List Problem
  | [] => []
  | s :: body => inStmt s ++ inBody body

def inOptionStmt : Option Stmt → List Problem
  | none => []
  | some s => inStmt s

end

end VirtualComputer.NestedYield
