import VirtualComputer.Validation.Problem

/-!
# Variables are declared before use

A name must have been declared before it is read or assigned, in the same block or one around it,
or be a global.  Branches, loop bodies, `try` bodies and handlers open a scope of their own.
-/

namespace VirtualComputer.UndefinedVariable

/-- The report of a name that is not declared. -/
def unknown (declared : List String) (x : String) (p : Problem) : List Problem :=
  if declared.contains x then [] else [p]

section Expressions

variable (declared : List String)

mutual

/-- The undeclared names that an expression reads. -/
def inExpr : Expr → List Problem
  | .ident x span =>
    unknown declared x (.error .undefinedVariable span ("Undefined variable '" ++ x ++ "'"))
  | .member e _ _ => inExpr e
  | .index e k _ => inExpr e ++ inExpr k
  | .call f es _ => inExpr f ++ inExprs es
  | .yield e _ => inOption e
  | .logic _ l r _ => inExpr l ++ inExpr r
  | .list es _ => inExprs es
  | .object ps _ => inProperties ps
  | .bool .. | .num .. | .str .. | .null _ => []

def inExprs : List Expr → List Problem
  | [] => []
  | e :: es => inExpr e ++ inExprs es

def inProperties : List (String × Expr) → List Problem
  | [] => []
  | (_, e) :: ps => inExpr e ++ inProperties ps

def inOption : Option Expr → List Problem
  | none => []
  | some e => inExpr e

end

/-- The undeclared names that a path segment reads. -/
def inSegment : Segment → List Problem
  | .property .. => []
  | .key e _ => inExpr declared e

end Expressions

/-- The names declared after a statement. -/
def declaredAfter (declared : List String) : Stmt → List String
  | .declare x _ _ => x :: declared
  | _ => declared

mutual

/-- The undeclared names that a statement uses. -/
def inStmt (declared : List String) : Stmt → List Problem
  | .declare _ init _ => inOption declared init
  | .assign x path e span =>
    unknown declared x
        (.error .undefinedVariable span ("Assignment to undeclared variable '" ++ x ++ "'")) ++
      path.flatMap (inSegment declared) ++ inExpr declared e
  | .branch e s t _ => inExpr declared e ++ inStmt declared s ++ inOptionStmt declared t
  | .loop e s _ => inExpr declared e ++ inStmt declared s
  | .attempt s x t _ => inStmt declared s ++ inStmt (x :: declared) t
  | .block body _ => inBody declared body
  | .return e _ => inOption declared e
  | .expr e _ => inExpr declared e
  | .break _ | .continue _ => []

/-- The undeclared names in a sequence, whose declarations count for what follows them. -/
def inBody (declared : List String) : List Stmt → List Problem
  | [] => []
  | s :: body => inStmt declared s ++ inBody (declaredAfter declared s) body

def inOptionStmt (declared : List String) : Option Stmt → List Problem
  | none => []
  | some s => inStmt declared s

end

end VirtualComputer.UndefinedVariable
