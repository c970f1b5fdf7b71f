import VirtualComputer.Guest.Library

/-!
# Direct evaluation

A second meaning of guest programs, by recursion over the syntax and without frames.  A `yield` hands its
operand out and goes on with the next resume value; an exit is an error of the evaluation, which the innermost
loop or `try` that stops it turns back into a value.  What a program calls and hands out is noted in order.

Loops repeat at most a given number of times, and an evaluation that wants more ends as exhausted; `run` evaluates
a whole program.
-/

namespace VirtualComputer.Direct

/-! ## Evaluations -/

/-- What a program does that can be seen from outside. -/
inductive Happening where
  | called (n : Native) (args : List Val)
  | yielded (v : Val)

/-- Why an evaluation ended without a value. -/
inductive Exit where
  | break
  | continue
  | return (value : Val)
  | throw (error : Val)
  /-- At a `yield` for which there is no resume value any more. -/
  | waiting
  /-- A loop was to be repeated more often than allowed. -/
  | exhausted

/-- What an evaluation reads and changes: the variables, the resume values still to come, what has happened, and
the world. -/
structure Store (σ : Type) where
  env : List (String × Val)
  inputs : List Val
  noted : List Happening
  world : σ

/-- A direct evaluation to a value of some type. -/
def Eval (σ α : Type) : Type :=
  Store σ → Except Exit α × Store σ

namespace Eval

variable {σ α β : Type}

def give (a : α) : Eval σ α := fun s => (.ok a, s)

/-- Ends without a value. -/
def exit (e : Exit) : Eval σ α := fun s => (.error e, s)

/-- Goes on with the value of an evaluation that has one. -/
def andThen (m : Eval σ α) (f : α → Eval σ β) : Eval σ β := fun s =>
  match m s with
  | (.ok a, s) => f a s
  | (.error e, s) => (.error e, s)

instance : Monad (Eval σ) where
  pure := give
  bind := andThen

/-- A value, or the error of a mistake. -/
def ofExcept : Except Mistake Val → Eval σ Val
  | .ok v => give v
  | .error m => exit (.throw m.toVal)

/-- Hands a value out, and goes on with the next resume value. -/
def exchange (v : Val) : Eval σ Val := fun s =>
  let s := { s with noted := s.noted ++ [Happening.yielded v] }
  match s.inputs with
  | [] => (.error .waiting, s)
  | d :: inputs => (.ok d, { s with inputs })

/-- Drops all variables but the outermost `base`, if an evaluation completes. -/
def within (base : Nat) (m : Eval σ Unit) : Eval σ Unit := fun s =>
  match m s with
  | (.ok (), t) => (.ok (), { t with env := outermost base t.env })
  | r => r

/-- Goes on with a handler if an evaluation ends with an error, which takes the place of all variables but the
outermost `base`, under a name. -/
def catching (base : Nat) (m : Eval σ Unit) (x : String) (handler : Eval σ Unit) : Eval σ Unit := fun s =>
  match m s with
  | (.error (.throw e), t) => handler { t with env := (x, e) :: outermost base t.env }
  | r => r

/-- One turn of a loop, which goes on unless the body breaks.  `break` and `continue` drop all variables but the
outermost `base`. -/
def turn (base : Nat) (body next : Eval σ Unit) : Eval σ Unit := fun s =>
  match body s with
  | (.ok (), t) => next t
  | (.error .continue, t) => next { t with env := outermost base t.env }
  | (.error .break, t) => (.ok (), { t with env := outermost base t.env })
  | r => r

/-- Repeats a body while a test holds. -/
def loop (base : Nat) (test : Eval σ Val) (body : Eval σ Unit) : Nat → Eval σ Unit
  | 0 => exit .exhausted
  | n + 1 => do
    let v ← test
    if v.truthy then turn base body (loop base test body n) else give ()

end Eval

open Eval

/-! ## Programs -/

section Programs

variable {σ : Type} (host : Host σ) (globals : Entries Val) (synchronized : Bool)

/-- Notes a call of a native, and makes it without a memory ceiling. -/
def callNative (n : Native) (args : List Val) : Eval σ Val := fun s =>
  let s := { s with noted := s.noted ++ [Happening.called n args] }
  match n.call host ⟨none, synchronized⟩ args ⟨0, s.world⟩ with
  | (.ok v, t) => (.ok v, { s with world := t.world })
  | (.error e, t) => (.error (.throw e), { s with world := t.world })

/-- Calls a value. -/
def apply (f : Val) (args : List Val) : Eval σ Val :=
  match f.callable? with
  | some (n, first) => callNative host synchronized n (first ++ args)
  | none => exit (.throw (Mistake.notCallable f.kind).toVal)

/-- The value of a variable or global. -/
def named (x : String) : Eval σ Val := fun s =>
  match lookup globals s.env x with
  | some v => (.ok v, s)
  | none => (.error (.throw (Mistake.undefined x).toVal), s)

/-- Puts a value at the end of a path inside a variable. -/
def write (x : String) (keys : List Val) (v : Val) : Eval σ Unit := fun s =>
  match writeVariable x keys v s.env with
  | (env, none) => (.ok (), { s with env })
  | (env, some m) => (.error (.throw m.toVal), { s with env })

/-- Makes a variable. -/
def declare (x : String) (v : Val) : Eval σ Unit := fun s =>
  (.ok (), { s with env := (x, v) :: s.env })

mutual

/-- Evaluates an expression. -/
def expr : Expr → Eval σ Val
  | .bool v _ => give (.bool v)
  | .num v _ => give (.num v)
  | .str v _ => give (.str v)
  | .null _ => give .null
  | .list es _ => do
    let vs ← exprs es
    give (.list vs)
  | .object ps _ => do
    let es ← properties ps
    give (.obj (Entries.ofList es))
  | .ident x _ => named globals x
  | .member e x _ => do
    let v ← expr e
    ofExcept (v.access (.str x))
  | .index e k _ => do
    let v ← expr e
    let key ← expr k
    ofExcept (v.access key)
  | .call f es _ => do
    let v ← expr f
    let vs ← exprs es
    apply host synchronized v vs
  | .yield operand _ => do
    let v ← option operand
    exchange v
  | .logic op l r _ => do
    let v ← expr l
    match op, v.truthy with
    | .and, false => give v
    | .or, true => give v
    | _, _ => expr r

/-- Evaluates expressions in order. -/
def exprs : List Expr → Eval σ (List Val)
  | [] => give []
  | e :: es => do
    let v ← expr e
    let vs ← exprs es
    give (v :: vs)

/-- Evaluates the values of properties in order. -/
def properties : List (String × Expr) → Eval σ (List (String × Val))
  | [] => give []
  | (k, e) :: ps => do
    let v ← expr e
    let es ← properties ps
    give ((k, v) :: es)

/-- Evaluates an expression that may be absent, which stands for null. -/
def option : Option Expr → Eval σ Val
  | none => give .null
  | some e => expr e

end

/-- Evaluates the keys of an assignment path in order. -/
def keys : List Segment → Eval σ (List Val)
  | [] => give []
  | .property x _ :: path => do
    let ks ← keys path
    give (.str x :: ks)
  | .key e _ :: path => do
    let k ← expr host globals synchronized e
    let ks ← keys path
    give (k :: ks)

mutual

/-- Evaluates a statement, each of whose loops is repeated at most `fuel` times. -/
def stmt (fuel : Nat) : Stmt → Eval σ Unit
  | .block body _ => fun s => within s.env.length (stmts fuel body) s
  | .declare x init _ => do
    let v ← option host globals synchronized init
    declare x v
  | .assign x path value _ => do
    let v ← expr host globals synchronized value
    let ks ← keys host globals synchronized path
    write x ks v
  | .branch test yes no _ => do
    let v ← expr host globals synchronized test
    if v.truthy then stmt fuel yes else stmtOption fuel no
  | .loop test body _ => fun s =>
    loop s.env.length (expr host globals synchronized test) (stmt fuel body) fuel s
  | .return value _ => do
    let v ← option host globals synchronized value
    exit (.return v)
  | .attempt body x handler _ => fun s =>
    within s.env.length (catching s.env.length (stmt fuel body) x (stmt fuel handler)) s
  | .expr e _ => do
    let _ ← expr host globals synchronized e
    give ()
  | .break _ => exit .break
  | .continue _ => exit .continue

/-- Evaluates statements in order. -/
def stmts (fuel : Nat) : List Stmt → Eval σ Unit
  | [] => give ()
  | s :: body => do
    stmt fuel s
    stmts fuel body

/-- Evaluates a statement that may be absent. -/
def stmtOption (fuel : Nat) : Option Stmt → Eval σ Unit
  | none => give ()
  | some s => stmt fuel s

end

/-- How a program ends, as far as it has been given resume values. -/
inductive Ending where
  | waiting
  | returned (v : Val)
  | threw (error : Val)

/-- How a program ends whose evaluation has ended in some way; nothing if that was exhausted. -/
def ending? : Except Exit Unit → Option Ending
  | .ok () => some (.returned .null)
  | .error (.return v) => some (.returned v)
  | .error (.throw e) => some (.threw e)
  | .error .break | .error .continue => some (.threw Mistake.strayControl.toVal)
  | .error .waiting => some .waiting
  | .error .exhausted => none

/-- What a whole program comes to with some resume values: how it ends, what has happened, and the world. -/
def run (fuel : Nat) (program : Stmt) (inputs : List Val) (world : σ) :
    Option Ending × List Happening × σ :=
  let (r, s) := stmt host globals synchronized fuel program ⟨[], inputs, [], world⟩
  (ending? r, s.noted, s.world)

end Programs

end VirtualComputer.Direct
