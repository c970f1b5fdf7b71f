import VirtualComputer.Proofs.Guest.Bare
import VirtualComputer.Proofs.Guest.Resume

/-!
# Positions do not matter

Forgetting the positions in the frames of a coroutine changes nothing that it does: its expressions evaluate alike
(`Expr.eval_bare`), a step of it is the step of the coroutine with positions (`step_stripped`), and so is a resume
(`resume_stripped`), as long as memory is not measured by them (`Runtime.Blind`).
-/

namespace VirtualComputer

variable {τ : Type}

/-! ## Expressions -/

section Eval

variable (rt : Runtime τ) (env : List (String × Val))

mutual

theorem Expr.eval_bare : ∀ e : Expr, e.bare.eval rt env = e.eval rt env
  | .bool _ _ | .num _ _ | .str _ _ | .null _ => rfl
  | .list es _ => by rw [Expr.bare, Expr.eval, Expr.eval, Expr.evalAll_bare es]
  | .object ps _ => by rw [Expr.bare, Expr.eval, Expr.eval, Expr.evalProperties_bare ps]
  | .ident x _ => by rw [Expr.bare, Expr.eval, Expr.eval]
  | .member e x _ => by rw [Expr.bare, Expr.eval, Expr.eval, Expr.eval_bare e]
  | .index e k _ => by rw [Expr.bare, Expr.eval, Expr.eval, Expr.eval_bare e, Expr.eval_bare k]
  | .call f es _ => by rw [Expr.bare, Expr.eval, Expr.eval, Expr.eval_bare f, Expr.evalAll_bare es]
  | .yield operand _ => by rw [Expr.bare, Expr.eval, Expr.eval, Expr.evalOption_bare operand]
  | .logic op l r _ => by rw [Expr.bare, Expr.eval, Expr.eval, Expr.eval_bare l, Expr.eval_bare r]

theorem Expr.evalAll_bare : ∀ es : List Expr, Expr.evalAll rt env (Expr.bareAll es) = Expr.evalAll rt env es
  | [] => rfl
  | e :: es => by rw [Expr.bareAll, Expr.evalAll, Expr.evalAll, Expr.eval_bare e, Expr.evalAll_bare es]

theorem Expr.evalProperties_bare : ∀ ps : List (String × Expr),
    Expr.evalProperties rt env (Expr.bareProperties ps) = Expr.evalProperties rt env ps
  | [] => rfl
  | (k, e) :: ps => by
    rw [Expr.bareProperties, Expr.evalProperties, Expr.evalProperties, Expr.eval_bare e, Expr.evalProperties_bare ps]

theorem Expr.evalOption_bare : ∀ e : Option Expr, Expr.evalOption rt env (Expr.bareOption e) = Expr.evalOption rt env e
  | none => rfl
  | some e => Expr.eval_bare e

end

theorem Expr.evalOption_map_bare (e : Option Expr) :
    Expr.evalOption rt env (e.map Expr.bare) = Expr.evalOption rt env e := by
  cases e with
  | none => rfl
  | some e => exact e.eval_bare rt env

theorem Segment.evalAll_bare : ∀ path : List Segment,
    Segment.evalAll rt env (path.map Segment.bare) = Segment.evalAll rt env path
  | [] => rfl
  | .property x _ :: path => by
    rw [List.map_cons, Segment.bare, Segment.evalAll, Segment.evalAll, Segment.evalAll_bare path]
  | .key e _ :: path => by
    rw [List.map_cons, Segment.bare, Segment.evalAll, Segment.evalAll, Segment.evalAll_bare path, e.eval_bare]

end Eval

/-! ## Coroutines -/

/-- The coroutine whose frames have no positions. -/
def Coroutine.stripped (co : Thread) : Thread :=
  { co with frames := co.frames.map Frame.bare }

/-- The step of the coroutine whose frames have no positions. -/
def StepResult.stripped : StepResult τ → StepResult τ
  | .next co s => .next co.stripped s
  | .done co s => .done co.stripped s
  | .fault f co s => .fault f co.stripped s

/-- Memory is not measured by positions. -/
def Runtime.Blind (rt : Runtime τ) : Prop :=
  ∀ co s, rt.admits co.stripped s = rt.admits co s

theorem footprint_stripped (co : Thread) : co.stripped.footprint = co.footprint := by
  obtain ⟨frames, env, control, delivered, status, guarded⟩ := co
  simp only [Coroutine.stripped, Coroutine.footprint, Val.footprintThread, List.length_map]

theorem blind_ofHost {σ : Type} (host : Host σ) (globals : Entries Val) (baseline : Nat) (c : Conditions) :
    (Runtime.ofHost host globals baseline c).Blind := fun co s => by
  simp only [Runtime.ofHost, footprint_stripped]

namespace Coroutine

theorem env_stripped (co : Thread) : co.stripped.env = co.env := rfl

theorem push_stripped (s : Stmt) (co : Thread) : push s.bare co.stripped = (push s co).stripped := by
  cases s <;> rfl

theorem unwind_stripped (control : Control Val) : ∀ (fs : List Frame) (env : List (String × Val)),
    unwind control (fs.map Frame.bare) env =
      ((unwind control fs env).1.map Frame.bare, (unwind control fs env).2.1, (unwind control fs env).2.2)
  | [], env => rfl
  | ⟨kind, base, node⟩ :: fs, env => by
    have ih := unwind_stripped control fs (outermost base env)
    cases control with
    | «break» => cases kind <;> first | rfl | exact ih
    | «continue» => cases kind <;> first | rfl | exact ih
    | throw e =>
      cases kind with
      | attempt phase =>
        cases phase with
        | body =>
          cases node with
          | attempt body x handler span => cases handler <;> rfl
          | _ => exact ih
        | _ => exact ih
      | _ => exact ih
    | _ => exact ih

theorem exit_stripped (co : Thread) (s : τ) : exit co.stripped s = (exit co s).stripped := by
  have h := unwind_stripped co.control co.frames co.env
  unfold exit
  dsimp only [stripped] at h ⊢
  rw [h]
  dsimp only
  split <;> rfl

theorem evaluating_stripped {α : Type} {co : Thread} {s : τ} {m : Evaluation τ α} {k l : α → Thread → τ → StepResult τ}
    (h : ∀ a co s, l a co.stripped s = (k a co s).stripped) :
    evaluating co.stripped s m l = (evaluating co s m k).stripped := by
  have hd : co.stripped.delivered = co.delivered := rfl
  unfold evaluating
  rw [hd]
  rcases m ⟨co.delivered, s⟩ with ⟨(v | e) | a, t⟩
  · rfl
  · rfl
  · exact h a { co with delivered := t.delivered } t.outside

theorem outcome_stripped (co : Thread) : outcome co.stripped = ((outcome co).1, (outcome co).2.stripped) := by
  obtain ⟨frames, env, control, delivered, status, guarded⟩ := co
  cases control <;> rfl

theorem conclude_stripped (r : StepResult τ) :
    conclude r.stripped = ((conclude r).1, (conclude r).2.1.stripped, (conclude r).2.2) := by
  cases r with
  | done co s =>
    unfold StepResult.stripped conclude
    dsimp only
    rw [outcome_stripped]
  | _ => rfl

/-! ## Frames -/

variable {rt : Runtime τ}

/-- A frame without positions is executed like the frame with them. -/
def Alike (rt : Runtime τ) (f : Frame) : Prop :=
  ∀ fs co s, execute rt f.bare (fs.map Frame.bare) co.stripped s = (execute rt f fs co s).stripped

theorem block_alike (next base : Nat) (body : List Stmt) (span : Span) :
    Alike rt ⟨.block next, base, .block body span⟩ := by
  intro fs co s
  have hget : (Stmt.bareAll body)[next]? = body[next]?.map Stmt.bare := by
    rw [Stmt.bareAll_eq, List.getElem?_map]
  unfold execute
  dsimp only [Frame.bare, Stmt.bare]
  rw [hget]
  cases body[next]? with
  | none => rfl
  | some child =>
    exact congrArg (StepResult.next · s)
      (push_stripped child { co with frames := ⟨.block (next + 1), base, .block body span⟩ :: fs })

theorem branch_alike (base : Nat) (test : Expr) (yes : Stmt) (no : Option Stmt) (span : Span) :
    Alike rt ⟨.branch, base, .branch test yes no span⟩ := by
  intro fs co s
  unfold execute
  dsimp only [Frame.bare, Stmt.bare]
  rw [env_stripped, Expr.eval_bare]
  refine evaluating_stripped fun v co s => ?_
  split
  · exact congrArg (StepResult.next · s) (push_stripped yes { co with frames := fs })
  · cases no with
    | none => rfl
    | some no => exact congrArg (StepResult.next · s) (push_stripped no { co with frames := fs })

theorem loop_alike (base : Nat) (test : Expr) (body : Stmt) (span : Span) :
    Alike rt ⟨.loop, base, .loop test body span⟩ := by
  intro fs co s
  unfold execute
  dsimp only [Frame.bare, Stmt.bare]
  rw [env_stripped, Expr.eval_bare]
  refine evaluating_stripped fun v co s => ?_
  split
  · exact congrArg (StepResult.next · s) (push_stripped body co)
  · rfl

theorem return_alike (base : Nat) (value : Option Expr) (span : Span) :
    Alike rt ⟨.return, base, .return value span⟩ := by
  intro fs co s
  unfold execute
  dsimp only [Frame.bare, Stmt.bare]
  rw [env_stripped, Expr.evalOption_map_bare]
  exact evaluating_stripped fun v co s => rfl

theorem attempt_alike (phase : TryPhase) (base : Nat) (body handler : Stmt) (x : String) (span : Span) :
    Alike rt ⟨.attempt phase, base, .attempt body x handler span⟩ := by
  intro fs co s
  cases phase with
  | start =>
    exact congrArg (StepResult.next · s)
      (push_stripped body { co with frames := ⟨.attempt .body, base, .attempt body x handler span⟩ :: fs })
  | _ => rfl

theorem expr_alike (base : Nat) (e : Expr) (span : Span) : Alike rt ⟨.expr, base, .expr e span⟩ := by
  intro fs co s
  unfold execute
  dsimp only [Frame.bare, Stmt.bare]
  rw [env_stripped, Expr.eval_bare]
  exact evaluating_stripped fun v co s => rfl

variable (hb : rt.Blind)
include hb

theorem measured_stripped (co : Thread) (s : τ) : measured rt co.stripped s = (measured rt co s).stripped := by
  unfold measured
  rw [hb co s]
  rcases rt.admits co s with ⟨_ | _, t⟩ <;> rfl

theorem declare_alike (base : Nat) (x : String) (init : Option Expr) (span : Span) :
    Alike rt ⟨.declare, base, .declare x init span⟩ := by
  intro fs co s
  unfold execute
  dsimp only [Frame.bare, Stmt.bare]
  rw [env_stripped, Expr.evalOption_map_bare]
  exact evaluating_stripped fun v co s => measured_stripped hb { co with frames := fs, env := (x, v) :: co.env } s

theorem assign_alike (base : Nat) (x : String) (path : List Segment) (value : Expr) (span : Span) :
    Alike rt ⟨.assign, base, .assign x path value span⟩ := by
  intro fs co s
  unfold execute
  dsimp only [Frame.bare, Stmt.bare]
  rw [env_stripped, Expr.eval_bare, Segment.evalAll_bare]
  refine evaluating_stripped fun p co s => ?_
  rw [env_stripped]
  rcases writeVariable x p.2 p.1 co.env with ⟨env, _ | m⟩
  · exact measured_stripped hb { co with env, frames := fs } s
  · rfl

/-- A frame whose kind is not that of its statement does nothing, with or without positions. -/
theorem execute_stripped (f : Frame) : Alike rt f := by
  obtain ⟨kind, base, node⟩ := f
  cases kind with
  | block next =>
    cases node with
    | block body span => exact block_alike next base body span
    | _ => exact fun _ _ _ => rfl
  | declare =>
    cases node with
    | declare x init span => exact declare_alike hb base x init span
    | _ => exact fun _ _ _ => rfl
  | assign =>
    cases node with
    | assign x path value span => exact assign_alike hb base x path value span
    | _ => exact fun _ _ _ => rfl
  | branch =>
    cases node with
    | branch test yes no span => exact branch_alike base test yes no span
    | _ => exact fun _ _ _ => rfl
  | loop =>
    cases node with
    | loop test body span => exact loop_alike base test body span
    | _ => exact fun _ _ _ => rfl
  | «return» =>
    cases node with
    | «return» value span => exact return_alike base value span
    | _ => exact fun _ _ _ => rfl
  | attempt phase =>
    cases node with
    | attempt body x handler span => exact attempt_alike phase base body handler x span
    | _ => exact fun _ _ _ => by cases phase <;> rfl
  | expr =>
    cases node with
    | expr e span => exact expr_alike base e span
    | _ => exact fun _ _ _ => rfl
  | «break» => cases node <;> exact fun _ _ _ => rfl
  | «continue» => cases node <;> exact fun _ _ _ => rfl

/-! ## Steps and resumes -/

/-- A step without positions is the step with them. -/
theorem step_stripped (co : Thread) (s : τ) : step rt co.stripped s = (step rt co s).stripped := by
  cases hc : co.control with
  | none =>
    cases hf : co.frames with
    | nil =>
      have hfs : co.stripped.frames = [] := by rw [stripped, hf]; rfl
      have hcs : co.stripped.control = .none := hc
      unfold step
      rw [hcs, hfs, hc, hf]
      rfl
    | cons f fs =>
      have hfs : co.stripped.frames = f.bare :: fs.map Frame.bare := by rw [stripped, hf]; rfl
      have hcs : co.stripped.control = .none := hc
      unfold step
      rw [hcs, hfs, hc, hf]
      exact execute_stripped hb f fs co s
  | suspend v =>
    have hcs : co.stripped.control = .suspend v := hc
    unfold step
    rw [hcs, hc]
    rfl
  | _ =>
    have hcs : co.stripped.control = co.control := rfl
    unfold step
    rw [hcs, hc]
    exact exit_stripped co s

theorem run_stripped : ∀ (n : Nat) (co : Thread) (s : τ), run rt n co.stripped s = (run rt n co s).stripped
  | 0, _, _ => rfl
  | n + 1, co, s => by
    rw [run, run, step_stripped hb]
    cases step rt co s with
    | next co' s' => exact run_stripped n co' s'
    | _ => rfl

/-- A resume without positions comes to what the resume with them does. -/
theorem resume_stripped (n : Nat) (d : Val) (co : Thread) (s : τ) : co.stripped.resume rt n d s =
    ((co.resume rt n d s).1, (co.resume rt n d s).2.1.stripped, (co.resume rt n d s).2.2) := by
  have hs : co.stripped.status = co.status := rfl
  cases h : co.status with
  | fresh =>
    rw [resume_fresh (hs.trans h), resume_fresh h, ← conclude_stripped, ← run_stripped hb]
    rfl
  | suspended =>
    rw [resume_suspended (hs.trans h), resume_suspended h, ← conclude_stripped, ← run_stripped hb]
    rfl
  | running => rw [resume_running (hs.trans h), resume_running h]
  | dead => rw [resume_dead (hs.trans h), resume_dead h]

end Coroutine

end VirtualComputer
