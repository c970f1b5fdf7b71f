import VirtualComputer.Guest.Assignment

/-!
# Executing coroutines

A coroutine is a stack of frames, one for each statement being executed.  `Coroutine.step` does
one step of the topmost frame, or pops frames while an exit is pending.  A statement whose
expression is suspended keeps its frame and is evaluated again once something is delivered.
`Coroutine.run` repeats steps, at most a given number, and `Coroutine.resume` runs a coroutine up
to its next `yield` or its end.
-/

namespace VirtualComputer

/-- What a step leads to. -/
inductive StepResult (τ : Type) where
  /-- There is more to do. -/
  | next (co : Thread) (outside : τ)
  /-- The coroutine has ended or is suspended. -/
  | done (co : Thread) (outside : τ)
  | fault (f : Fault) (co : Thread) (outside : τ)

/-- How a resume ended. -/
inductive Outcome where
  | yielded (v : Val)
  | returned (v : Val)
  | threw (error : Val)

/-! ## Frames -/

/-- The kind of frame that starts a statement. -/
def Stmt.frameKind : Stmt → FrameKind
  | .block .. => .block 0
  | .declare .. => .declare
  | .assign .. => .assign
  | .branch .. => .branch
  | .loop .. => .loop
  | .return .. => .return
  | .attempt .. => .attempt .start
  | .expr .. => .expr
  | .break _ => .break
  | .continue _ => .continue

/-- The name of a frame kind in messages. -/
def FrameKind.shown : FrameKind → String
  | .block next => "Block \x7b idx: " ++ Decimal.integerText next ++ " \x7d"
  | .declare => "Declare"
  | .assign => "Assign"
  | .branch => "If"
  | .loop => "While \x7b phase: Test \x7d"
  | .return => "Return"
  | .attempt phase => "Try \x7b phase: " ++ phase.tag ++ " \x7d"
  | .expr => "Expr"
  | .break => "Break"
  | .continue => "Continue"

/-- The variables that remain when all but the outermost ones are dropped. -/
def outermost (count : Nat) (env : List (String × Val)) : List (String × Val) :=
  env.drop (env.length - count)

/-- The frame of a statement that is about to start. -/
def Stmt.frame (s : Stmt) (env : List (String × Val)) : Frame :=
  ⟨s.frameKind, env.length, s⟩

namespace Coroutine

/-- The coroutine with a statement on top of its frames. -/
def push (s : Stmt) (co : Thread) : Thread :=
  { co with frames := s.frame co.env :: co.frames }

/-- A coroutine that will run a program. -/
def ofProgram (program : Stmt) (guarded : Bool) : Thread where
  frames := [program.frame []]
  env := []
  control := .none
  delivered := none
  status := .fresh
  guarded

/-! ## Pending exits -/

/-- Pops frames until one stops the pending exit, together with the variables made since each was
pushed.  Loops stop `break` and `continue`, and a `try` whose body runs stops an error.  The
control that remains is none exactly when a frame was found. -/
def unwind (control : Control Val) :
    List Frame → List (String × Val) → List Frame × List (String × Val) × Control Val
  | [], env => ([], env, control)
  | f :: fs, env =>
    let env := outermost f.base env
    match control, f.kind, f.node with
    | .break, .loop, _ => (fs, env, .none)
    | .continue, .loop, _ => (f :: fs, env, .none)
    | .throw e, .attempt .body, .attempt _ x handler _ =>
      let env := (x, e) :: env
      (handler.frame env :: { f with kind := .attempt .handler } :: fs, env, .none)
    | _, _, _ => unwind control fs env

/-- Whether an exit is pending. -/
def isPending : Control Val → Bool
  | .none => false
  | _ => true

variable {τ : Type}

/-- One step while an exit is pending. -/
def exit (co : Thread) (s : τ) : StepResult τ :=
  let (frames, env, control) := unwind co.control co.frames co.env
  let co := { co with frames, env, control }
  if isPending control then .done co s else .next co s

/-! ## Steps -/

/-- Evaluates for a statement: goes on with the value, or leaves the frame as it is. -/
def evaluating {α : Type} (co : Thread) (s : τ) (m : Evaluation τ α)
    (k : α → Thread → τ → StepResult τ) : StepResult τ :=
  match m ⟨co.delivered, s⟩ with
  | (.ok a, t) => k a { co with delivered := t.delivered } t.outside
  | (.error (.suspend v), t) =>
    .done { co with delivered := t.delivered, control := .suspend v } t.outside
  | (.error (.throw e), t) =>
    .next { co with delivered := t.delivered, control := .throw e } t.outside

/-- Goes on after a write to a variable if memory allows. -/
def measured (rt : Runtime τ) (co : Thread) (s : τ) : StepResult τ :=
  match rt.admits co s with
  | (true, s) => .next co s
  | (false, s) => .fault .allocationLimit co s

/-- One step of the topmost frame `f`, below which are the frames `fs`. -/
def execute (rt : Runtime τ) (f : Frame) (fs : List Frame) (co : Thread) (s : τ) : StepResult τ :=
  match f.kind, f.node with
  | .block next, .block body _ =>
    match body[next]? with
    | none => .next { co with frames := fs, env := outermost f.base co.env } s
    | some child =>
      .next (push child { co with frames := { f with kind := .block (next + 1) } :: fs }) s
  | .declare, .declare x init _ =>
    evaluating co s (Expr.evalOption rt co.env init) fun v co s =>
      measured rt { co with frames := fs, env := (x, v) :: co.env } s
  | .assign, .assign x path value _ =>
    let operands := do
      let v ← Expr.eval rt co.env value
      let ks ← Segment.evalAll rt co.env path
      pure (v, ks)
    evaluating co s operands fun (v, ks) co s =>
      match writeVariable x ks v co.env with
      | (env, some m) => .next { co with env, control := .throw m.toVal } s
      | (env, none) => measured rt { co with env, frames := fs } s
  | .branch, .branch test yes no _ =>
    evaluating co s (Expr.eval rt co.env test) fun v co s =>
      let co := { co with frames := fs }
      if v.truthy then .next (push yes co) s
      else match no with
        | some no => .next (push no co) s
        | none => .next co s
  | .loop, .loop test body _ =>
    evaluating co s (Expr.eval rt co.env test) fun v co s =>
      if v.truthy then .next (push body co) s else .next { co with frames := fs } s
  | .return, .return value _ =>
    evaluating co s (Expr.evalOption rt co.env value) fun v co s =>
      .next { co with frames := fs, control := .return v } s
  | .attempt .start, .attempt body _ _ _ =>
    .next (push body { co with frames := { f with kind := .attempt .body } :: fs }) s
  | .attempt _, .attempt _ _ _ _ =>
    .next { co with frames := fs, env := outermost f.base co.env } s
  | .expr, .expr e _ =>
    evaluating co s (Expr.eval rt co.env e) fun _ co s => .next { co with frames := fs } s
  | .break, .break _ => .next { co with frames := fs, control := .break } s
  | .continue, .continue _ => .next { co with frames := fs, control := .continue } s
  | kind, _ =>
    .fault (.internal ("frame kind " ++ kind.shown ++ " does not match its statement")) co s

/-- One step. -/
def step (rt : Runtime τ) (co : Thread) (s : τ) : StepResult τ :=
  match co.control, co.frames with
  | .suspend _, _ => .done co s
  | .none, [] => .done co s
  | .none, f :: fs => execute rt f fs co s
  | _, _ => exit co s

/-! ## Runs -/

/-- Steps until there is no more to do, at most the given number. -/
def run (rt : Runtime τ) : Nat → Thread → τ → StepResult τ
  | 0, co, s => .next co s
  | n + 1, co, s =>
    match step rt co s with
    | .next co s => run rt n co s
    | r => r

/-- What a coroutine that has no more to do has come to. -/
def outcome (co : Thread) : Outcome × Thread :=
  let ended : Thread :=
    { co with frames := [], env := [], control := .none, status := .dead }
  match co.control with
  | .suspend v => (.yielded v, { co with control := .none, delivered := none, status := .suspended })
  | .return v => (.returned v, ended)
  | .none => (.returned .null, ended)
  | .throw e => (.threw e, ended)
  | .break | .continue => (.threw Mistake.strayControl.toVal, ended)

/-- Runs to the next `yield`, or to the end, with at most the given number of steps.  What is
delivered becomes the value of the `yield` at which the coroutine is suspended; a fresh one
ignores it. -/
def resume (rt : Runtime τ) (steps : Nat) (delivery : Val) (co : Thread) (s : τ) :
    Except Fault Outcome × Thread × τ :=
  let go (co : Thread) : Except Fault Outcome × Thread × τ :=
    match run rt steps { co with status := .running } s with
    | .done co s =>
      let (o, co) := outcome co
      (.ok o, co, s)
    | .fault f co s => (.error f, { co with status := .dead }, s)
    | .next co s => (.error .outOfSteps, { co with status := .dead }, s)
  match co.status with
  | .dead => (.error (.runtime "cannot resume dead coroutine"), co, s)
  | .running => (.error (.internal "coroutine is already running"), co, s)
  | .suspended => go { co with delivered := some delivery }
  | .fresh => go co

/-- Whether a coroutine can never be resumed again. -/
def isDead (co : Thread) : Bool :=
  co.status = .dead

end Coroutine

end VirtualComputer
