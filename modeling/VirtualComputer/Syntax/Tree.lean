import VirtualComputer.Syntax.Span

/-!
# Syntax trees of guest programs

Statements are the units that a coroutine executes one at a time; expressions evaluate in one go.
Operators other than `&&` and `||` have no node of their own: they are calls of the builtin that
the operator names.
-/

namespace VirtualComputer

/-- The operators that may leave their right side unevaluated. -/
inductive Connective where
  | and
  | or
  deriving DecidableEq, Repr

inductive Expr where
  | bool (value : Bool) (span : Span)
  | num (value : Float) (span : Span)
  | str (value : String) (span : Span)
  | null (span : Span)
  | list (elements : List Expr) (span : Span)
  | object (properties : List (String × Expr)) (span : Span)
  | ident (name : String) (span : Span)
  | member (object : Expr) (property : String) (span : Span)
  | index (object key : Expr) (span : Span)
  | call (callee : Expr) (args : List Expr) (span : Span)
  /-- Hands the operand out and stands for what is delivered in return. -/
  | yield (operand : Option Expr) (span : Span)
  | logic (op : Connective) (left right : Expr) (span : Span)
  deriving Inhabited

/-- One step of an assignment target: `.name` or `[expr]`. -/
inductive Segment where
  | property (name : String) (span : Span)
  | key (expr : Expr) (span : Span)

inductive Stmt where
  | block (body : List Stmt) (span : Span)
  | declare (name : String) (init : Option Expr) (span : Span)
  | assign (name : String) (path : List Segment) (value : Expr) (span : Span)
  | branch (test : Expr) (yes : Stmt) (no : Option Stmt) (span : Span)
  | loop (test : Expr) (body : Stmt) (span : Span)
  | return (value : Option Expr) (span : Span)
  /-- Runs the body; an error in it is bound to the name and the handler runs instead. -/
  | attempt (body : Stmt) (name : String) (handler : Stmt) (span : Span)
  | expr (expr : Expr) (span : Span)
  | break (span : Span)
  | continue (span : Span)
  deriving Inhabited

/-- The span of an expression. -/
def Expr.span : Expr → Span
  | .bool _ s | .num _ s | .str _ s | .null s | .list _ s | .object _ s | .ident _ s
  | .member _ _ s | .index _ _ s | .call _ _ s | .yield _ s | .logic _ _ _ s => s

/-- The span of a path segment. -/
def Segment.span : Segment → Span
  | .property _ s | .key _ s => s

/-- The span of a statement. -/
def Stmt.span : Stmt → Span
  | .block _ s | .declare _ _ s | .assign _ _ _ s | .branch _ _ _ s | .loop _ _ s
  | .return _ s | .attempt _ _ _ s | .expr _ s | .break s | .continue s => s

/-- The call of a builtin that an operator stands for; the callee has the span of the whole. -/
def Expr.builtin (name : String) (args : List Expr) (span : Span) : Expr :=
  .call (.ident name span) args span

/-! ## Forgetting positions -/

mutual

/-- The expression without source positions. -/
def Expr.bare : Expr → Expr
  | .bool v _ => .bool v .none
  | .num v _ => .num v .none
  | .str v _ => .str v .none
  | .null _ => .null .none
  | .list es _ => .list (Expr.bareAll es) .none
  | .object ps _ => .object (Expr.bareProperties ps) .none
  | .ident x _ => .ident x .none
  | .member e p _ => .member e.bare p .none
  | .index e k _ => .index e.bare k.bare .none
  | .call f es _ => .call f.bare (Expr.bareAll es) .none
  | .yield e _ => .yield (Expr.bareOption e) .none
  | .logic op l r _ => .logic op l.bare r.bare .none

def Expr.bareAll : List Expr → List Expr
  | [] => []
  | e :: es => e.bare :: Expr.bareAll es

def Expr.bareProperties : List (String × Expr) → List (String × Expr)
  | [] => []
  | (k, e) :: ps => (k, e.bare) :: Expr.bareProperties ps

def Expr.bareOption : Option Expr → Option Expr
  | none => none
  | some e => some e.bare

end

/-- The segment without source positions. -/
def Segment.bare : Segment → Segment
  | .property x _ => .property x .none
  | .key e _ => .key e.bare .none

mutual

/-- The statement without source positions. -/
def Stmt.bare : Stmt → Stmt
  | .block body _ => .block (Stmt.bareAll body) .none
  | .declare x e _ => .declare x (e.map Expr.bare) .none
  | .assign x path e _ => .assign x (path.map Segment.bare) e.bare .none
  | .branch e s t _ => .branch e.bare s.bare (Stmt.bareOption t) .none
  | .loop e s _ => .loop e.bare s.bare .none
  | .return e _ => .return (e.map Expr.bare) .none
  | .attempt s x t _ => .attempt s.bare x t.bare .none
  | .expr e _ => .expr e.bare .none
  | .break _ => .break .none
  | .continue _ => .continue .none

def Stmt.bareAll : List Stmt → List Stmt
  | [] => []
  | s :: body => s.bare :: Stmt.bareAll body

def Stmt.bareOption : Option Stmt → Option Stmt
  | none => none
  | some s => some s.bare

end

end VirtualComputer
