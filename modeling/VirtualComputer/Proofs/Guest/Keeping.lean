import VirtualComputer.Proofs.Guest.Resume

/-!
# What a coroutine does outside

A coroutine reaches the state outside only through the calls of natives and the measurements of its runtime.  What
those keep (`Runtime.Keeps`), every evaluation, every step and every resume keeps (`eval_keeps`, `step_keeps`,
`resume_keeps`).
-/

namespace VirtualComputer

variable {τ α β : Type}

/-- Every call and every measurement relates the state outside before and after it. -/
structure Runtime.Keeps (rt : Runtime τ) (R : τ → τ → Prop) : Prop where
  refl : ∀ s, R s s
  trans : ∀ {s t u}, R s t → R t u → R s u
  call : ∀ n args s, R s (rt.call n args s).2
  admits : ∀ co s, R s (rt.admits co s).2

/-! ## Evaluations -/

/-- An evaluation relates the state outside before and after it. -/
def Evaluation.Keeps (R : τ → τ → Prop) (m : Evaluation τ α) : Prop :=
  ∀ s, R s.outside (m s).2.outside

section Evaluations

variable {rt : Runtime τ} {R : τ → τ → Prop} (h : rt.Keeps R)
include h

theorem give_keeps (a : α) : (Evaluation.give a).Keeps R := fun _ => h.refl _

theorem throw_keeps (m : Mistake) : (Evaluation.throw (α := α) m).Keeps R := fun _ => h.refl _

theorem andThen_keeps {m : Evaluation τ α} {f : α → Evaluation τ β} (hm : m.Keeps R)
    (hf : ∀ a, (f a).Keeps R) : Evaluation.Keeps R (m >>= f) := by
  intro s
  show R s.outside (Evaluation.andThen m f s).2.outside
  have hs := hm s
  rw [Evaluation.andThen]
  rcases hm : m s with ⟨i | a, t⟩ <;> rw [hm] at hs
  · exact hs
  · exact h.trans hs (hf a t)

theorem ofExcept_keeps (r : Except Mistake Val) : (Evaluation.ofExcept r).Keeps R := by
  cases r with
  | ok v => exact give_keeps h v
  | error m => exact throw_keeps h m

theorem call_keeps (n : Native) (args : List Val) : (Evaluation.call rt n args).Keeps R := by
  intro s
  have hc := h.call n args s.outside
  rw [Evaluation.call]
  rcases hr : rt.call n args s.outside with ⟨r | v, t⟩ <;> rw [hr] at hc <;> exact hc

theorem invoke_keeps (f : Val) (args : List Val) : (f.invoke rt args).Keeps R := by
  rw [Val.invoke]
  cases f.callable? with
  | none => exact throw_keeps h _
  | some c => exact call_keeps h _ _

variable (env : List (String × Val))

mutual

theorem eval_keeps : ∀ e : Expr, (e.eval rt env).Keeps R
  | .bool .. | .num .. | .str .. | .null _ => give_keeps h _
  | .ident x _ => by
    rw [Expr.eval]
    cases lookup rt.globals env x with
    | none => exact throw_keeps h _
    | some v => exact give_keeps h v
  | .list es _ => andThen_keeps h (evalAll_keeps es) fun _ => give_keeps h _
  | .object ps _ => andThen_keeps h (evalProperties_keeps ps) fun _ => give_keeps h _
  | .member e _ _ => andThen_keeps h (eval_keeps e) fun _ => ofExcept_keeps h _
  | .index e k _ => andThen_keeps h (eval_keeps e) fun _ => andThen_keeps h (eval_keeps k) fun _ =>
      ofExcept_keeps h _
  | .call f es _ => andThen_keeps h (eval_keeps f) fun _ => andThen_keeps h (evalAll_keeps es) fun _ =>
      invoke_keeps h _ _
  | .yield operand _ => by
    refine andThen_keeps h (fun _ => h.refl _) fun d => ?_
    cases d with
    | some v => exact give_keeps h v
    | none => exact andThen_keeps h (evalOption_keeps operand) fun _ _ => h.refl _
  | .logic op l r _ => by
    refine andThen_keeps h (eval_keeps l) fun v => ?_
    cases op <;> cases v.truthy
    · exact give_keeps h v
    · exact eval_keeps r
    · exact eval_keeps r
    · exact give_keeps h v

theorem evalAll_keeps : ∀ es : List Expr, (Expr.evalAll rt env es).Keeps R
  | [] => give_keeps h _
  | e :: es => andThen_keeps h (eval_keeps e) fun _ => andThen_keeps h (evalAll_keeps es) fun _ => give_keeps h _

theorem evalProperties_keeps : ∀ ps : List (String × Expr), (Expr.evalProperties rt env ps).Keeps R
  | [] => give_keeps h _
  | (_, e) :: ps => andThen_keeps h (eval_keeps e) fun _ => andThen_keeps h (evalProperties_keeps ps) fun _ =>
      give_keeps h _

theorem evalOption_keeps : ∀ o : Option Expr, (Expr.evalOption rt env o).Keeps R
  | none => give_keeps h _
  | some e => eval_keeps e

end

theorem segments_keep : ∀ path : List Segment, (Segment.evalAll rt env path).Keeps R
  | [] => give_keeps h _
  | .property .. :: path => andThen_keeps h (segments_keep path) fun _ => give_keeps h _
  | .key e _ :: path => andThen_keeps h (eval_keeps h env e) fun _ => andThen_keeps h (segments_keep path) fun _ =>
      give_keeps h _

end Evaluations

/-! ## Steps -/

/-- The state outside after a step. -/
def StepResult.outside : StepResult τ → τ
  | .next _ s | .done _ s | .fault _ _ s => s

namespace Coroutine

variable {rt : Runtime τ} {R : τ → τ → Prop} (h : rt.Keeps R)

theorem exit_outside (co : Thread) (s : τ) : (exit co s).outside = s := by
  rw [exit]
  dsimp only
  split <;> rfl

theorem conclude_outside (r : StepResult τ) : (conclude r).2.2 = r.outside := by
  cases r <;> rfl

include h

theorem evaluating_keeps {co : Thread} {s : τ} {m : Evaluation τ α} {k : α → Thread → τ → StepResult τ}
    (hm : m.Keeps R) (hk : ∀ a co t, R t (k a co t).outside) : R s (evaluating co s m k).outside := by
  have hs := hm ⟨co.delivered, s⟩
  rw [evaluating]
  rcases hr : m ⟨co.delivered, s⟩ with ⟨(v | e) | a, t⟩ <;> rw [hr] at hs
  · exact hs
  · exact hs
  · exact h.trans hs (hk a _ _)

theorem measured_keeps (co : Thread) (s : τ) : R s (measured rt co s).outside := by
  have hs := h.admits co s
  rw [measured]
  rcases hr : rt.admits co s with ⟨_ | _, t⟩ <;> rw [hr] at hs <;> exact hs

theorem execute_keeps (f : Frame) (fs : List Frame) (co : Thread) (s : τ) :
    R s (execute rt f fs co s).outside := by
  unfold execute
  split
  · split <;> exact h.refl _
  · exact evaluating_keeps h (evalOption_keeps h _ _) fun _ _ _ => measured_keeps h _ _
  · refine evaluating_keeps h (andThen_keeps h (eval_keeps h _ _) fun _ =>
      andThen_keeps h (segments_keep h _ _) fun _ => give_keeps h _) fun ⟨_, _⟩ _ _ => ?_
    dsimp only
    split
    · exact h.refl _
    · exact measured_keeps h _ _
  · refine evaluating_keeps h (eval_keeps h _ _) fun _ _ _ => ?_
    dsimp only
    split
    · exact h.refl _
    · split <;> exact h.refl _
  · refine evaluating_keeps h (eval_keeps h _ _) fun _ _ _ => ?_
    split <;> exact h.refl _
  · exact evaluating_keeps h (evalOption_keeps h _ _) fun _ _ _ => h.refl _
  · exact h.refl _
  · exact h.refl _
  · exact evaluating_keeps h (eval_keeps h _ _) fun _ _ _ => h.refl _
  all_goals exact h.refl _

theorem step_keeps (co : Thread) (s : τ) : R s (step rt co s).outside := by
  unfold step
  split
  · exact h.refl _
  · exact h.refl _
  · exact execute_keeps h _ _ co s
  · rw [exit_outside]
    exact h.refl _

theorem run_keeps : ∀ (n : Nat) (co : Thread) (s : τ), R s (run rt n co s).outside
  | 0, _, _ => h.refl _
  | n + 1, co, s => by
    have hs := step_keeps h co s
    rw [run]
    cases hr : step rt co s with
    | next co' s' => rw [hr] at hs; exact h.trans hs (run_keeps n co' s')
    | done co' s' => rw [hr] at hs; exact hs
    | fault f co' s' => rw [hr] at hs; exact hs

theorem resume_keeps (n : Nat) (d : Val) (co : Thread) (s : τ) : R s (co.resume rt n d s).2.2 := by
  cases hs : co.status with
  | fresh => rw [resume_fresh hs, conclude_outside]; exact run_keeps h _ _ _
  | suspended => rw [resume_suspended hs, conclude_outside]; exact run_keeps h _ _ _
  | running => rw [resume_running hs]; exact h.refl _
  | dead => rw [resume_dead hs]; exact h.refl _

end Coroutine

end VirtualComputer
