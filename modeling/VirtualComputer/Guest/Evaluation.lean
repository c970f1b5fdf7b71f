import VirtualComputer.Guest.Mistake

/-!
# Evaluating expressions

An expression evaluates in one go to a value, or is interrupted by a `yield` or an error.  What
has been delivered to the coroutine is what its next `yield` stands for; until then a `yield`
hands out its operand.  Natives are called through the runtime, over a state of its own.
-/

namespace VirtualComputer

/-- What surrounds a coroutine while it runs. -/
structure Runtime (τ : Type) where
  globals : Entries Val
  /-- Calls a native. -/
  call : Native → List Val → τ → Except Val Val × τ
  /-- Measures a coroutine after a write to one of its variables; whether it may go on. -/
  admits : Thread → τ → Bool × τ

/-- Why an evaluation ended without a value. -/
inductive Interruption where
  | suspend (value : Val)
  | throw (error : Val)

/-- What an evaluation may change. -/
structure Scratch (τ : Type) where
  delivered : Option Val
  outside : τ

/-- An evaluation to a value of some type. -/
def Evaluation (τ α : Type) : Type :=
  Scratch τ → Except Interruption α × Scratch τ

namespace Evaluation

variable {τ α β : Type}

def give (a : α) : Evaluation τ α := fun s => (.ok a, s)

/-- Goes on with the value of an evaluation that is not interrupted. -/
def andThen (m : Evaluation τ α) (f : α → Evaluation τ β) : Evaluation τ β := fun s =>
  match m s with
  | (.ok a, s) => f a s
  | (.error i, s) => (.error i, s)

instance : Monad (Evaluation τ) where
  pure := give
  bind := andThen

/-- Raises an error. -/
def throw (m : Mistake) : Evaluation τ α := fun s => (.error (.throw m.toVal), s)

/-- Hands a value out. -/
def suspend (v : Val) : Evaluation τ α := fun s => (.error (.suspend v), s)

/-- Takes what has been delivered, if anything has. -/
def take : Evaluation τ (Option Val) := fun s => (.ok s.delivered, { s with delivered := none })

/-- Calls a native. -/
def call (rt : Runtime τ) (n : Native) (args : List Val) : Evaluation τ Val := fun s =>
  match rt.call n args s.outside with
  | (.ok v, outside) => (.ok v, { s with outside })
  | (.error e, outside) => (.error (.throw e), { s with outside })

end Evaluation

open Evaluation

/-- The element or entry of a container under a key; a missing one reads as null. -/
def Val.access : Val → Val → Except Mistake Val
  | .obj entries, .str k => .ok ((Entries.get? k entries).getD .null)
  | .list items, .num x =>
    .ok (if 0 ≤ x && Val.isWhole x then items[x.toUInt64.toNat]?.getD .null else .null)
  | .error code message, .str k =>
    if k = "message" then .ok (.str message)
    else if k = "code" then .ok (.str code)
    else .error (.noAccess .error .string)
  | c, k => .error (.noAccess c.kind k.kind)

/-- The value of a variable, the innermost of its name, or of a global. -/
def lookup (globals : Entries Val) (env : List (String × Val)) (x : String) : Option Val :=
  match env.find? (·.1 = x) with
  | some (_, v) => some v
  | none => Entries.get? x globals

section Eval

variable {τ : Type} (rt : Runtime τ) (env : List (String × Val))

/-- A value, or the error of a mistake. -/
def Evaluation.ofExcept : Except Mistake Val → Evaluation τ Val
  | .ok v => give v
  | .error m => throw m

/-- Calls a value. -/
def Val.invoke (f : Val) (args : List Val) : Evaluation τ Val :=
  match f.callable? with
  | some (n, first) => call rt n (first ++ args)
  | none => throw (.notCallable f.kind)

mutual

/-- Evaluates an expression. -/
def Expr.eval : Expr → Evaluation τ Val
  | .bool v _ => give (.bool v)
  | .num v _ => give (.num v)
  | .str v _ => give (.str v)
  | .null _ => give .null
  | .list es _ => do
    let vs ← Expr.evalAll es
    give (.list vs)
  | .object ps _ => do
    let es ← Expr.evalProperties ps
    give (.obj (Entries.ofList es))
  | .ident x _ =>
    match lookup rt.globals env x with
    | some v => give v
    | none => throw (.undefined x)
  | .member e x _ => do
    let v ← Expr.eval e
    ofExcept (v.access (.str x))
  | .index e k _ => do
    let v ← Expr.eval e
    let key ← Expr.eval k
    ofExcept (v.access key)
  | .call f es _ => do
    let v ← Expr.eval f
    let vs ← Expr.evalAll es
    v.invoke rt vs
  | .yield operand _ => do
    match ← take with
    | some v => give v
    | none =>
      let v ← Expr.evalOption operand
      suspend v
  | .logic op l r _ => do
    let v ← Expr.eval l
    match op, v.truthy with
    | .and, false => give v
    | .or, true => give v
    | _, _ => Expr.eval r

/-- Evaluates expressions in order. -/
def Expr.evalAll : List Expr → Evaluation τ (List Val)
  | [] => give []
  | e :: es => do
    let v ← Expr.eval e
    let vs ← Expr.evalAll es
    give (v :: vs)

/-- Evaluates the values of properties in order. -/
def Expr.evalProperties : List (String × Expr) → Evaluation τ (List (String × Val))
  | [] => give []
  | (k, e) :: ps => do
    let v ← Expr.eval e
    let es ← Expr.evalProperties ps
    give ((k, v) :: es)

/-- Evaluates an expression that may be absent, which stands for null. -/
def Expr.evalOption : Option Expr → Evaluation τ Val
  | none => give .null
  | some e => Expr.eval e

end

/-- Evaluates the keys of an assignment path in order. -/
def Segment.evalAll : List Segment → Evaluation τ (List Val)
  | [] => give []
  | .property x _ :: path => do
    let ks ← Segment.evalAll path
    give (.str x :: ks)
  | .key e _ :: path => do
    let k ← Expr.eval rt env e
    let ks ← Segment.evalAll path
    give (k :: ks)

end Eval

end VirtualComputer
