import VirtualComputer.Grammar.Lexeme
import VirtualComputer.Syntax.Tree

/-!
# The grammar of expressions

Six levels of binary operators, all grouping to the left, stand above unary operators, and those
above calls, members and indexes.  `expression` is bounded by a number that decreases with each
nested expression; one more than the length of the text is enough, since each nesting reads at
least one character first.
-/

namespace VirtualComputer.Grammar

open Matcher

/-! ## Operators -/

/-- What a binary operator makes of its operands. -/
inductive Operator where
  | logic (op : Connective)
  | builtin (name : String)

/-- The expression of an operator and its operands. -/
def Operator.apply (op : Operator) (left right : Expr) : Expr :=
  let span := left.span.join right.span
  match op with
  | .logic op => .logic op left right span
  | .builtin name => .builtin name [left, right] span

/-- The binary operators, the loosest level first; within a level the longer texts come first. -/
def levels : List (List (String × Operator)) := [
  [("||", .logic .or)],
  [("&&", .logic .and)],
  [("==", .builtin "eq"), ("!=", .builtin "ne")],
  [("<=", .builtin "lte"), (">=", .builtin "gte"), ("<", .builtin "lt"), (">", .builtin "gt")],
  [("+", .builtin "add"), ("-", .builtin "sub")],
  [("*", .builtin "mul"), ("/", .builtin "div"), ("%", .builtin "mod")]]

/-- The unary operators. -/
def unaryOperators : List (String × String) := [("!", "not"), ("-", "neg")]

/-- The first operator of a table that stands here. -/
def operator {α : Type} (table : List (String × α)) : Matcher α :=
  firstOf (table.map fun (text, a) => named do literal text; pure a)

/-- One level of binary operators over the next tighter one. -/
def chain (bound : Nat) (table : List (String × Operator)) (operand : Matcher Expr) :
    Matcher Expr :=
  named do
    let first ← operand
    skip
    let others ← repeated bound do
      let op ← operator table
      skip
      let right ← operand
      pure (op, right)
    pure (others.foldl (fun left (op, right) => op.apply left right) first)

/-- Unary operators before an operand. -/
def unary (operand : Matcher Expr) : Nat → Matcher Expr
  | 0 => fail
  | n + 1 =>
    let applied := spanned
      (do
        let builtin ← operator unaryOperators
        skip
        let e ← unary operand n
        pure (builtin, e))
      (fun (builtin, e) span => .builtin builtin [e] span)
    named (applied.orElse operand)

/-! ## Literals -/

/-- Items separated by commas; a comma may follow the last. -/
def separated {α : Type} (bound : Nat) (item : Matcher α) : Matcher (List α) :=
  named do
    let first ← item
    skip
    let others ← repeated bound do
      literal ","
      skip
      item
    skip
    let _ ← optional (literal ",")
    pure (first :: others)

/-- Items between brackets, possibly none. -/
def bracketed {α : Type} (bound : Nat) (opening closing : String) (item : Matcher α) :
    Matcher (List α) := do
  literal opening
  skip
  let items ← optional (separated bound item)
  skip
  literal closing
  pure (items.getD [])

/-- A key and its value in an object literal. -/
def property (expression : Matcher Expr) : Matcher (String × Expr) :=
  named do
    let key ← name.orElse do
      let cs ← lexeme splitString
      pure (stringValue cs)
    skip
    literal ":"
    skip
    let value ← expression
    pure (key, value)

/-- The words that denote truth values. -/
def truth : Matcher Bool :=
  named ((scan (splitKeyword "true")).andThen (fun _ => give true) |>.orElse
    ((scan (splitKeyword "false")).andThen fun _ => give false))

/-- A literal. -/
def literalExpr (bound : Nat) (expression : Matcher Expr) : Matcher Expr :=
  named <| firstOf [
    spanned (lexeme splitNumber) fun cs span => .num (numberValue cs) span,
    spanned (lexeme splitString) fun cs span => .str (stringValue cs) span,
    spanned truth .bool,
    spanned (lexeme (splitKeyword "null")) fun _ span => .null span,
    spanned (named (bracketed bound "[" "]" expression)) .list,
    spanned (named (bracketed bound "\x7b" "\x7d" (property expression))) .object]

/-! ## Suffixes -/

/-- What may follow an expression to form a larger one. -/
inductive Suffix where
  | call (args : List Expr)
  | member (name : String)
  | index (key : Expr)

/-- The expression with a suffix that has the given range. -/
def Suffix.apply (e : Expr) (s : Suffix) (range : Span) : Expr :=
  let span := e.span.join range
  match s with
  | .call args => .call e args span
  | .member name => .member e name span
  | .index key => .index e key span

/-- Arguments, a member or an index. -/
def suffix (bound : Nat) (expression : Matcher Expr) : Matcher (Suffix × Span) :=
  let call : Matcher Suffix := named do
    let args ← bracketed bound "(" ")" expression
    pure (.call args)
  let member : Matcher Suffix := named do
    literal "."
    skip
    let x ← name
    pure (.member x)
  let index : Matcher Suffix := named do
    literal "["
    skip
    let e ← expression
    skip
    literal "]"
    pure (.index e)
  spanned (named (firstOf [call, member, index])) Prod.mk

/-- A literal, a name or an expression in parentheses. -/
def primary (bound : Nat) (expression : Matcher Expr) : Matcher Expr :=
  let parenthesized : Matcher Expr := do
    literal "("
    skip
    let e ← expression
    skip
    literal ")"
    pure e
  named (firstOf [literalExpr bound expression, spanned name .ident, parenthesized])

/-- A primary expression and its suffixes. -/
def suffixed (bound : Nat) (expression : Matcher Expr) : Matcher Expr :=
  named do
    let head ← primary bound expression
    skip
    let suffixes ← repeated bound (suffix bound expression)
    pure (suffixes.foldl (fun e (s, range) => s.apply e range) head)

/-! ## Expressions -/

/-- An expression, given the matcher for the expressions nested in it. -/
def expressionOver (bound : Nat) (expression : Matcher Expr) : Matcher Expr :=
  let yielded : Matcher Expr := spanned
    (named do
      keyword "yield"
      skip
      optional expression)
    .yield
  let operand := unary (suffixed bound expression) bound
  named (yielded.orElse (levels.foldr (chain bound) operand))

/-- An expression with at most the given depth of nested expressions. -/
def expression : Nat → Matcher Expr
  | 0 => fail
  | n + 1 => expressionOver (n + 1) (expression n)

end VirtualComputer.Grammar
