import VirtualComputer.Proofs.Guest.Evaluations
import VirtualComputer.Proofs.Guest.Stages
import VirtualComputer.Proofs.Guest.Steps
import VirtualComputer.Proofs.Guest.Yields

/-!
# Deliveries reach their yields

If no `yield` of a program is nested in an expression, a value that is delivered to its coroutine becomes the value of
the `yield` that has suspended it, and of no other one (`delivered_to_yield`): the step that suspends the coroutine
evaluates the operand and nothing else, the first step afterwards takes up the statement at the value of that `yield`,
and from then on nothing is left of what was delivered.
-/

namespace VirtualComputer

/-- The coroutine that a step has led to. -/
def StepResult.thread {τ : Type} : StepResult τ → Thread
  | .next co _ | .done co _ | .fault _ co _ => co

namespace Coroutine

variable {τ α : Type} {rt : Runtime τ} {co : Thread}

/-! ## What has been delivered -/

theorem evaluating_undelivered (h : co.delivered = none) {s : τ} {m : Evaluation τ α}
    {k : α → Thread → τ → StepResult τ} (hm : m.Undelivered)
    (hk : ∀ a t, (k a { co with delivered := none } t).thread.delivered = none) :
    (evaluating co s m k).thread.delivered = none := by
  have hleft := hm ⟨co.delivered, s⟩ h
  unfold evaluating
  rcases hr : m ⟨co.delivered, s⟩ with ⟨(v | e) | a, ⟨d, t⟩⟩
  · rw [hr] at hleft
    exact hleft
  · rw [hr] at hleft
    exact hleft
  · rw [hr] at hleft
    obtain rfl : d = none := hleft
    exact hk a t

theorem measured_thread (rt : Runtime τ) (co : Thread) (s : τ) : (measured rt co s).thread = co := by
  unfold measured
  rcases rt.admits co s with ⟨_ | _, t⟩
  · rfl
  · rfl

theorem execute_undelivered (f : Frame) (fs : List Frame) (h : co.delivered = none) (s : τ) :
    (execute rt f fs co s).thread.delivered = none := by
  unfold execute
  split
  · split
    · exact h
    · exact h
  · refine evaluating_undelivered h (evalOption_undelivered rt _ _) fun v t => ?_
    rw [measured_thread]
  · have hoperands {value : Expr} {path : List Segment} : Evaluation.Undelivered (do
        let v ← value.eval rt co.env
        let ks ← Segment.evalAll rt co.env path
        pure (v, ks)) :=
      (undelivered_pervades rt).andThen (eval_undelivered rt _ _) fun _ =>
        (undelivered_pervades rt).andThen (segments_undelivered rt _ _) fun _ => (undelivered_pervades rt).give _
    refine evaluating_undelivered h hoperands fun p t => ?_
    obtain ⟨v, ks⟩ := p
    dsimp only
    split
    · rfl
    · rw [measured_thread]
  · refine evaluating_undelivered h (eval_undelivered rt _ _) fun v t => ?_
    dsimp only
    split
    · rfl
    · split
      · rfl
      · rfl
  · refine evaluating_undelivered h (eval_undelivered rt _ _) fun v t => ?_
    split
    · rfl
    · rfl
  · exact evaluating_undelivered h (evalOption_undelivered rt _ _) fun v t => rfl
  · exact h
  · exact h
  · exact evaluating_undelivered h (eval_undelivered rt _ _) fun v t => rfl
  all_goals exact h

theorem exit_thread (co : Thread) (s : τ) : (exit co s).thread.delivered = co.delivered := by
  unfold exit
  dsimp only
  split
  · rfl
  · rfl

/-- Nothing has been delivered after a step if nothing had been before. -/
theorem step_undelivered (h : co.delivered = none) (s : τ) : (step rt co s).thread.delivered = none := by
  unfold step
  split
  · exact h
  · exact h
  · exact execute_undelivered _ _ h s
  · rw [exit_thread]
    exact h

/-- Once nothing is left of what has been delivered, nothing is for the rest of a run. -/
theorem run_undelivered (n : Nat) {s : τ} (h : (step rt co s).thread.delivered = none) :
    (run rt (n + 1) co s).thread.delivered = none := by
  induction n generalizing co s with
  | zero =>
    rw [run]
    cases hr : step rt co s with
    | next co' s' | done co' s' | fault f co' s' =>
      rw [hr] at h
      exact h
  | succ n ih =>
    rw [run]
    cases hr : step rt co s with
    | next co' s' =>
      rw [hr] at h
      exact ih (step_undelivered h s')
    | done co' s' | fault f co' s' =>
      rw [hr] at h
      exact h

theorem outcome_undelivered (h : co.delivered = none) : (outcome co).2.delivered = none := by
  unfold outcome
  split
  · rfl
  all_goals exact h

theorem conclude_undelivered {r : StepResult τ} (h : r.thread.delivered = none) :
    (conclude r).2.1.delivered = none := by
  cases r with
  | next co s | fault f co s => exact h
  | done co s => exact outcome_undelivered h

/-- Nothing of a delivery is left when the statement of the `yield` has taken it. -/
theorem receive_undelivered (f : Frame) (fs : List Frame) (v : Val) (h : co.delivered = none) (s : τ) :
    (receive rt f fs v co s).thread.delivered = none := by
  unfold receive
  split
  · rw [measured_thread]
    exact h
  · refine evaluating_undelivered h (segments_undelivered rt _ _) fun ks t => ?_
    dsimp only
    split
    · rfl
    · rw [measured_thread]
  · exact h
  · exact h

/-- The first step after a delivery: the statement on top takes it as the value of its `yield`. -/
theorem step_delivered {f : Frame} {fs : List Frame} {d : Val} (hc : co.control = .none) (hf : co.frames = f :: fs)
    (hy : f.AtYield) (hd : co.delivered = some d) (s : τ) :
    step rt co s = receive rt f fs d { co with delivered := none } s := by
  obtain ⟨hkind, operand, span, hvalue⟩ := hy
  obtain ⟨frames, env, control, delivered, status, guarded⟩ := co
  obtain rfl : control = .none := hc
  obtain rfl : frames = f :: fs := hf
  obtain rfl : delivered = some d := hd
  exact execute_value rt fs hkind hvalue _ s

/-! ## What suspends -/

theorem eval_yield (rt : Runtime τ) (env : List (String × Val)) (operand : Option Expr) (span : Span) (s : τ) :
    (Expr.yield operand span).eval rt env ⟨none, s⟩ =
      Evaluation.andThen (Expr.evalOption rt env operand) Evaluation.suspend ⟨none, s⟩ := by
  rw [Expr.eval]
  rfl

theorem option_firm {env : List (String × Val)} : ∀ {o : Option Expr}, NestedYield.inOption o = [] →
    (Expr.evalOption rt env o).Firm
  | none, _ => give_firm _
  | some e, h => eval_firm e h

/-- The operand of the `yield` of a statement contains none. -/
theorem operand_whole {s : Stmt} (h : NestedYield.inStmt s = []) {operand : Option Expr} {span : Span}
    (hv : s.value? = some (.yield operand span)) : NestedYield.inOption operand = [] := by
  cases s with
  | declare x init _ =>
    obtain rfl : init = some (.yield operand span) := hv
    exact h
  | assign x path value _ =>
    obtain rfl : value = .yield operand span := Option.some.inj hv
    exact (List.append_eq_nil_iff.1 h).2
  | «return» value _ =>
    obtain rfl : value = some (.yield operand span) := hv
    exact h
  | expr e _ =>
    obtain rfl : e = .yield operand span := Option.some.inj hv
    exact h
  | _ => cases hv

theorem measured_not_done {s s' : τ} {co' : Thread} : measured rt co s ≠ .done co' s' := by
  unfold measured
  rcases rt.admits co s with ⟨_ | _, t⟩
  · exact nofun
  · exact nofun

/-- The statement of a `yield` hands nothing out when it takes its value. -/
theorem receive_not_done {f : Frame} {fs : List Frame} (h : NestedYield.inStmt f.node = []) {v : Val} {s s' : τ}
    {co' : Thread} : receive rt f fs v co s ≠ .done co' s' := by
  unfold receive
  split
  · exact measured_not_done
  · next x path value span hn =>
    rw [hn] at h
    have hfirm : (Segment.evalAll rt co.env path).Firm := segments_firm path (List.append_eq_nil_iff.1 h).1
    unfold evaluating
    rcases hr : Segment.evalAll rt co.env path ⟨co.delivered, s⟩ with ⟨(w | e) | ks, t⟩
    · exact absurd hr (hfirm _ w t)
    · exact nofun
    · dsimp only
      split
      · exact nofun
      · exact measured_not_done
  · exact nofun
  · exact nofun

/-- The value of a statement is handed out after the operand of a `yield` has been evaluated, and nothing else. -/
theorem yield_suspends {f : Frame} {fs : List Frame} (h : NestedYield.inStmt f.node = []) {operand : Option Expr}
    {span : Span} (hvalue : f.node.value? = some (.yield operand span)) {s s' : τ} {co' : Thread} {v : Val}
    (hs : evaluating co s ((Expr.yield operand span).eval rt co.env) (receive rt f fs) = .done co' s')
    (hv : co'.control = .suspend v) : co.delivered = none ∧
      Expr.evalOption rt co.env operand ⟨none, s⟩ = (.ok v, ⟨none, s'⟩) ∧ co' = { co with control := .suspend v } := by
  obtain ⟨frames, env, control, delivered, status, guarded⟩ := co
  cases delivered with
  | some d =>
    have hreceive : receive rt f fs d ⟨frames, env, control, none, status, guarded⟩ s = .done co' s' := hs
    exact absurd hreceive (receive_not_done h)
  | none =>
    have hleft := evalOption_undelivered rt env operand ⟨none, s⟩ rfl
    unfold evaluating at hs
    dsimp only at hs ⊢
    rw [eval_yield, Evaluation.andThen] at hs
    rcases hr : Expr.evalOption rt env operand ⟨none, s⟩ with ⟨(w | e) | w, ⟨d, t⟩⟩
    · exact absurd hr (option_firm (operand_whole h hvalue) _ w _)
    · rw [hr] at hs
      cases hs
    · rw [hr] at hs hleft
      obtain rfl : d = none := hleft
      cases hs
      cases hv
      exact ⟨rfl, rfl, rfl⟩

/-! ## Stages -/

/-- Between steps: no `yield` is nested, and what has been delivered is for the statement on top. -/
structure Attending (co : Thread) : Prop where
  whole : co.Whole
  proper : ∀ v, co.control ≠ .suspend v
  delivered : co.delivered = none ∨ co.control = .none ∧ ∃ f fs, co.frames = f :: fs ∧ f.AtYield

/-- Between resumes: nothing has been delivered, and if the coroutine is suspended it is at a `yield`. -/
structure Awaiting (co : Thread) : Prop where
  nodes : ∀ f ∈ co.frames, NestedYield.inStmt f.node = []
  control : co.control = .none
  delivered : co.delivered = none
  waits : co.status = .suspended → ∃ f fs, co.frames = f :: fs ∧ f.AtYield

/-- The step that suspends a coroutine evaluates the operand of the `yield` on top, and does nothing else. -/
theorem Attending.suspended (h : co.Attending) {co' : Thread} {s s' : τ} {v : Val} (hs : step rt co s = .done co' s')
    (hv : co'.control = .suspend v) : ∃ f fs operand span, co.frames = f :: fs ∧ f.kind = f.node.frameKind ∧
      f.node.value? = some (.yield operand span) ∧ co.control = .none ∧ co.delivered = none ∧
      Expr.evalOption rt co.env operand ⟨none, s⟩ = (.ok v, ⟨none, s'⟩) ∧ co' = { co with control := .suspend v } := by
  have hwhole : co'.Whole := by
    have hkept := step_whole rt h.whole s
    rw [hs] at hkept
    exact hkept
  rcases step_suspend_cases hs hv with rfl | ⟨f, fs, hc, hf, ht⟩
  · exact absurd hv (h.proper v)
  · have hpauses := execute_pauses rt f fs hc s
    rw [ht] at hpauses
    obtain ⟨d, w, hco⟩ := hpauses
    obtain ⟨f', fs', hf', hy⟩ := hwhole.pending v hv
    have hsame : co'.frames = co.frames := by rw [hco]
    obtain ⟨rfl, rfl⟩ := List.cons_eq_cons.1 (hf'.symm.trans (hsame.trans hf))
    obtain ⟨hkind, operand, span, hvalue⟩ := hy
    have hnode := h.whole.nodes f' (by rw [hf]; exact List.mem_cons_self)
    refine ⟨f', fs', operand, span, hf, hkind, hvalue, hc, ?_⟩
    rw [execute_value rt fs' hkind hvalue] at ht
    exact yield_suspends hnode hvalue ht hv

/-- Deliveries are for the statements on top in the course of all resumes. -/
theorem attending_keeps (allowed : Runtime τ → Prop) {program : Stmt} (h : NestedYield.inStmt program = [])
    (guarded : Bool) : Keeps allowed program guarded Awaiting Attending where
  fresh := ⟨List.forall_mem_singleton.2 h, rfl, rfl, nofun⟩
  begun {co} d hco := by
    have hproper (v : Val) : co.control ≠ .suspend v := by
      rw [hco.control]
      exact nofun
    unfold begun
    split
    · next hs => exact ⟨whole_of_nodes hco.nodes hproper, hproper, .inr ⟨hco.control, hco.waits hs⟩⟩
    · exact ⟨whole_of_nodes hco.nodes hproper, hproper, .inl hco.delivered⟩
  next {rt co co' s s'} _ hco hs := by
    have hwhole := step_whole rt hco.whole s
    rw [hs] at hwhole
    refine ⟨hwhole, step_next hs, .inl ?_⟩
    have hthread : (step rt co s).thread = co' := by rw [hs]; rfl
    rw [← hthread]
    cases hd : co.delivered with
    | none => exact step_undelivered hd s
    | some d =>
      rcases hco.delivered with hn | ⟨hc, f, fs, hf, hy⟩
      · cases hd.symm.trans hn
      · rw [step_delivered hc hf hy hd]
        exact receive_undelivered f fs d rfl s
  yielded {rt co co' s s' v} _ hco hs hv := by
    obtain ⟨f, fs, operand, span, hf, hkind, hvalue, -, -, -, rfl⟩ := hco.suspended hs hv
    exact ⟨hco.whole.nodes, rfl, rfl, fun _ => ⟨f, fs, hf, hkind, operand, span, hvalue⟩⟩

/-- Wherever the resumes of a program in which no nested `yield` is reported have suspended it: the last step has
evaluated the operand of the `yield` that is the value of the statement on top, and nothing else.  Whatever is delivered
then, that statement takes it in the first step as the value of its `yield`, and nothing of it is left after that step
or any later one, or at the end of the resume. -/
theorem delivered_to_yield {program : Stmt} {guarded : Bool}
    (h : ∀ p ∈ program.problems, p.rule ≠ Rule.nestedYield.id) {rt : Runtime τ} {co co' : Thread} {steps : Nat}
    {d v : Val} {s s' : τ} (hco : Rests (fun _ : Runtime τ => True) program guarded co)
    (hy : co.resume rt steps d s = (.ok (.yielded v), co', s')) : ∃ f fs operand span co₁ s₁,
      Stage (fun _ => True) program guarded rt co₁ s₁ ∧ co' = { co₁ with status := .suspended } ∧
      co₁.delivered = none ∧ co₁.frames = f :: fs ∧ f.kind = f.node.frameKind ∧
      f.node.value? = some (.yield operand span) ∧ Expr.evalOption rt co₁.env operand ⟨none, s₁⟩ = (.ok v, ⟨none, s'⟩) ∧
      step rt co₁ s₁ = .done { co₁ with control := .suspend v } s' ∧
      ∀ (rt' : Runtime τ) (d' : Val) (t : τ),
        step rt' (co'.begun d') t = receive rt' f fs d' { co' with status := .running } t ∧
        (∀ n, (run rt' (n + 1) (co'.begun d') t).thread.delivered = none) ∧
        ∀ n, (co'.resume rt' (n + 1) d' t).2.1.delivered = none := by
  have hrule := (unreported_iff program .nestedYield).1 h
  have hresult : (co.resume rt steps d s).1 = .ok (.yielded v) := by rw [hy]
  obtain ⟨co₁, s₁, co₂, s₂, hstage, hs, ho, hleft⟩ := hco.last_step trivial hresult
  rw [hy] at hleft
  cases hleft
  obtain ⟨hv, hended⟩ := outcome_yielded ho.symm
  obtain ⟨f, fs, operand, span, hf, hkind, hvalue, hc, hd, hoperand, rfl⟩ :=
    ((attending_keeps _ hrule guarded).stage hstage).suspended hs hv
  have hleft : (outcome { co₁ with control := .suspend v }).2 = { co₁ with status := .suspended } := by
    rw [hended, ← hc, ← hd]
  rw [hleft]
  refine ⟨f, fs, operand, span, co₁, s₁, hstage, rfl, hd, hf, hkind, hvalue, hoperand, hs, fun rt' d' t => ?_⟩
  have hstep : step rt' ({ co₁ with status := .suspended }.begun d') t =
      receive rt' f fs d' { co₁ with status := .running } t := by
    have htaken := @step_delivered τ rt' { co₁ with delivered := some d', status := .running } f fs d' hc hf
      ⟨hkind, operand, span, hvalue⟩ rfl t
    rw [← hd] at htaken
    exact htaken
  have hrun (n : Nat) : (run rt' (n + 1) ({ co₁ with status := .suspended }.begun d') t).thread.delivered = none := by
    refine run_undelivered n ?_
    rw [hstep]
    refine receive_undelivered f fs d' ?_ t
    exact hd
  refine ⟨hstep, hrun, fun n => ?_⟩
  rw [resume_suspended rfl]
  exact conclude_undelivered (hrun n)

end Coroutine

/-- A block that asks for a value and binds the answer. -/
def askingBlock : Stmt :=
  .block [.declare "a" (some (.yield (some (.bool true .none)) .none)) .none] .none

/-- The answer is bound in the step after it has been delivered. -/
theorem answer_bound : ∃ used, Coroutine.step (.ofHost silentHost [] 0 ⟨none, false⟩)
      ⟨[⟨.declare, 0, .declare "a" (some (.yield (some (.bool true .none)) .none)) .none⟩, ⟨.block 1, 0, askingBlock⟩],
        [], .none, some (.str "answer"), .running, true⟩ ⟨0, ()⟩ =
    .next ⟨[⟨.block 1, 0, askingBlock⟩], [("a", .str "answer")], .none, none, .running, true⟩ ⟨used, ()⟩ := by
  have hrule : ∀ p ∈ askingBlock.problems, p.rule ≠ Rule.nestedYield.id :=
    (unreported_iff askingBlock .nestedYield).2 rfl
  have hy : (Coroutine.ofProgram askingBlock true).resume (.ofHost silentHost [] 0 ⟨none, false⟩) 9 .null ⟨0, ()⟩ =
      (.ok (.yielded (.bool true)),
        ⟨[⟨.declare, 0, .declare "a" (some (.yield (some (.bool true .none)) .none)) .none⟩,
          ⟨.block 1, 0, askingBlock⟩], [], .none, none, .suspended, true⟩, ⟨0, ()⟩) := rfl
  obtain ⟨f, fs, _, _, co₁, _, _, hco, _, hf, _, _, _, _, hanswer⟩ := Coroutine.delivered_to_yield hrule .fresh hy
  cases co₁
  cases hco
  cases hf
  exact ⟨_, (hanswer (.ofHost silentHost [] 0 ⟨none, false⟩) (.str "answer") ⟨0, ()⟩).1⟩

end VirtualComputer
