import VirtualComputer.Grammar.Expression

/-!
# The grammar of statements

`parse` reads a whole text as a program: one block of statements that covers the text.  A text
that is no program is refused at the furthest place at which a rule was tried in vain.
-/

namespace VirtualComputer

/-- Where a text ceases to be a program; both numbers count from zero. -/
structure ParseError where
  line : Nat
  column : Nat
  deriving DecidableEq, Repr

/-- The text of a parse error, with lines and columns counted from one. -/
def ParseError.message (e : ParseError) : String :=
  "not a program at " ++ Decimal.integerText (e.line + 1) ++ ":" ++
    Decimal.integerText (e.column + 1)

namespace Grammar

open Matcher

/-- An optional semicolon. -/
def terminator : Matcher Unit := do
  let _ ← optional (literal ";")
  pure ()

/-- An expression in parentheses. -/
def condition (expression : Matcher Expr) : Matcher Expr := do
  literal "("
  skip
  let test ← expression
  skip
  literal ")"
  pure test

section Statements

variable (bound : Nat) (expression : Matcher Expr) (statement : Matcher Stmt)

/-- Statements in braces. -/
def block : Matcher Stmt :=
  spanned
    (named do
      literal "\x7b"
      skip
      let body ← repeated bound statement
      skip
      literal "\x7d"
      pure body)
    .block

/-- The declaration of a variable, with or without a value. -/
def declaration : Matcher Stmt :=
  spanned
    (named do
      keyword "let"
      skip
      let x ← name
      skip
      let init ← optional do
        literal "="
        skip
        expression
      skip
      terminator
      pure (x, init))
    (fun (x, init) => .declare x init)

/-- A conditional statement. -/
def conditional : Matcher Stmt :=
  spanned
    (named do
      keyword "if"
      skip
      let test ← condition expression
      skip
      let yes ← statement
      skip
      let no ← optional (named do
        keyword "else"
        skip
        statement)
      pure (test, yes, no))
    (fun (test, yes, no) => .branch test yes no)

/-- A loop. -/
def loop : Matcher Stmt :=
  spanned
    (named do
      keyword "while"
      skip
      let test ← condition expression
      skip
      let body ← statement
      pure (test, body))
    (fun (test, body) => .loop test body)

/-- The end of the program, with or without a value. -/
def returning : Matcher Stmt :=
  spanned
    (named do
      keyword "return"
      skip
      let value ← optional expression
      skip
      terminator
      pure value)
    .return

/-- A statement that is one word. -/
def wordStatement (word : String) (make : Span → Stmt) : Matcher Stmt :=
  spanned
    (named do
      keyword word
      skip
      terminator)
    (fun _ => make)

/-- A block with a handler for its errors. -/
def attempt : Matcher Stmt :=
  spanned
    (named do
      keyword "try"
      skip
      let body ← block bound statement
      skip
      keyword "catch"
      skip
      literal "("
      skip
      let x ← name
      skip
      literal ")"
      skip
      let handler ← block bound statement
      pure (body, x, handler))
    (fun (body, x, handler) => .attempt body x handler)

/-- One step of the target of an assignment. -/
def segment : Matcher Segment :=
  let property : Matcher (Span → Segment) := do
    literal "."
    skip
    let x ← name
    pure (.property x)
  let key : Matcher (Span → Segment) := do
    literal "["
    skip
    let e ← expression
    skip
    literal "]"
    pure (.key e)
  spanned (named (property.orElse key)) fun make span => make span

/-- An assignment; its sign must not be the beginning of a comparison. -/
def assignment : Matcher Stmt :=
  spanned
    (named do
      let x ← name
      skip
      let path ← repeated bound (segment expression)
      skip
      literal "="
      skip
      notHere (literal "=")
      skip
      let value ← expression
      skip
      terminator
      pure (x, path, value))
    (fun (x, path, value) => .assign x path value)

/-- An expression that stands as a statement. -/
def expressionStatement : Matcher Stmt :=
  spanned
    (named do
      let e ← expression
      skip
      terminator
      pure e)
    .expr

/-- A statement, given the matchers for the expressions and statements nested in it. -/
def statementOver : Matcher Stmt :=
  named <| firstOf [
    block bound statement,
    declaration expression,
    conditional expression statement,
    loop expression statement,
    returning expression,
    wordStatement "break" .break,
    wordStatement "continue" .continue,
    attempt bound statement,
    assignment bound expression,
    expressionStatement expression]

end Statements

/-- A statement with at most the given depth of nested statements. -/
def statement : Nat → Matcher Stmt
  | 0 => fail
  | n + 1 => statementOver (n + 1) (expression (n + 1)) (statement n)

/-- The end of the text. -/
def ending : Matcher Unit :=
  named fun c => ⟨if c.rest.isEmpty then some ((), c) else none, .origin⟩

/-- A whole program. -/
def program (bound : Nat) : Matcher Stmt :=
  spanned
    (named do
      skip
      let body ← repeated bound (statement bound)
      skip
      ending
      pure body)
    .block

/-- Reads a text as a program. -/
def parse (text : String) : Except ParseError Stmt :=
  match program (text.toList.length + 1) (Cursor.ofText text) with
  | ⟨some (s, _), _⟩ => .ok s
  | ⟨none, furthest⟩ => .error ⟨furthest.line, furthest.column⟩

end Grammar

end VirtualComputer
