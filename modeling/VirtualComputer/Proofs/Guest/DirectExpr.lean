import VirtualComputer.Proofs.Guest.Driver
import VirtualComputer.Validation.NestedYield

/-!
# Direct evaluation of expressions agrees with that of coroutines

An expression without `yield` evaluates alike in a coroutine and directly (`expr_agrees`).  An expression that is
the whole value of a statement may be a `yield` itself: it is evaluated up to the operand first, and once more when
its value has been delivered (`Resumable`, `value_resumable`).
-/

namespace VirtualComputer.Direct

variable {σ α β : Type}

/-- The runtime of a coroutine with a host and without a memory ceiling. -/
abbrev unlimited (host : Host σ) (globals : Entries Val) (baseline : Nat) (synchronized : Bool) :
    Runtime (Session σ) :=
  Runtime.ofHost host globals baseline ⟨none, synchronized⟩

/-- The evaluations of a coroutine in such a runtime, when the calls it makes are noted. -/
abbrev Evaluating (σ α : Type) : Type :=
  Evaluation (List Happening × Session σ) α

theorem evaluation_bind {τ : Type} (m : Evaluation τ α) (f : α → Evaluation τ β) (s : Scratch τ) :
    (m >>= f) s = match m s with
      | (.ok a, s) => f a s
      | (.error i, s) => (.error i, s) := by
  show Evaluation.andThen m f s = _
  unfold Evaluation.andThen
  rcases m s with ⟨r | a, t⟩ <;> rfl

theorem eval_bind (k : Eval σ α) (g : α → Eval σ β) (s : Store σ) :
    (k >>= g) s = match k s with
      | (.ok a, s) => g a s
      | (.error e, s) => (.error e, s) := by
  show Eval.andThen k g s = _
  unfold Eval.andThen
  rcases k s with ⟨r | a, t⟩ <;> rfl

/-! ## Agreement -/

/-- With the variables `env`, two evaluations come to the same value or error, note the same and leave the same
world.  Neither depends on what has been delivered, what is still to come, or how much memory is in use. -/
def Agrees (env : List (String × Val)) (m : Evaluating σ α) (k : Eval σ α) : Prop :=
  ∀ d inputs noted used world, ∃ (r : Except Val α) (noted' : List Happening) (world' : σ),
    m ⟨d, noted, used, world⟩ = (r.mapError .throw, ⟨d, noted', used, world'⟩) ∧
    k ⟨env, inputs, noted, world⟩ = (r.mapError .throw, ⟨env, inputs, noted', world'⟩)

variable {env : List (String × Val)}

theorem agrees_give (a : α) : Agrees (σ := σ) env (Evaluation.give a) (Eval.give a) :=
  fun _ _ noted _ world => ⟨.ok a, noted, world, rfl, rfl⟩

theorem agrees_throw (m : Mistake) :
    Agrees (σ := σ) (α := α) env (Evaluation.throw m) (Eval.exit (.throw m.toVal)) :=
  fun _ _ noted _ world => ⟨.error m.toVal, noted, world, rfl, rfl⟩

theorem agrees_bind {m : Evaluating σ α} {k : Eval σ α} {f : α → Evaluating σ β} {g : α → Eval σ β}
    (h : Agrees env m k) (h' : ∀ a, Agrees env (f a) (g a)) : Agrees env (m >>= f) (k >>= g) := by
  intro d inputs noted used world
  obtain ⟨r, noted₁, world₁, hm, hk⟩ := h d inputs noted used world
  rw [evaluation_bind, eval_bind, hm, hk]
  cases r with
  | error e => exact ⟨.error e, noted₁, world₁, rfl, rfl⟩
  | ok a => exact h' a d inputs noted₁ used world₁

theorem agrees_ofExcept (r : Except Mistake Val) :
    Agrees (σ := σ) env (Evaluation.ofExcept r) (Eval.ofExcept r) := by
  cases r with
  | ok v => exact agrees_give v
  | error m => exact agrees_throw m

/-! ## Calls -/

theorem settle_used (r : Except Mistake Val) (used : Nat) (world : σ) :
    Native.settle r (⟨used, world⟩ : Session σ) = ((Native.settle r (⟨0, world⟩ : Session σ)).1, ⟨used, world⟩) := by
  cases r <;> rfl

theorem settle_world (r : Except Mistake Val) (s : Session σ) : (Native.settle r s).2 = s := by
  cases r <;> rfl

/-- Without a memory ceiling, a call neither reads nor changes how much memory is in use. -/
theorem call_unlimited (host : Host σ) (synchronized : Bool) (n : Native) (args : List Val) (used : Nat) (world : σ) :
    n.call host ⟨none, synchronized⟩ args ⟨used, world⟩ =
      ((n.call host ⟨none, synchronized⟩ args ⟨0, world⟩).1,
        ⟨used, (n.call host ⟨none, synchronized⟩ args ⟨0, world⟩).2.world⟩) := by
  unfold Native.call
  split
  · rfl
  cases n <;> dsimp only <;> try rfl
  case send => cases Native.message args <;> rfl
  all_goals rw [settle_used, settle_world]

variable (host : Host σ) (globals : Entries Val) (baseline : Nat) (synchronized : Bool)

theorem agrees_call (n : Native) (args : List Val) :
    Agrees env (Evaluation.call (unlimited host globals baseline synchronized).noting n args)
      (callNative host synchronized n args) := by
  intro d inputs noted used world
  have h := call_unlimited host synchronized n args used world
  rcases hr : n.call host ⟨none, synchronized⟩ args ⟨0, world⟩ with ⟨r, s⟩
  rw [hr] at h
  refine ⟨r, noted ++ [.called n args], s.world, ?_, ?_⟩
  · simp only [Evaluation.call, Runtime.noting, Runtime.ofHost, h]
    cases r <;> rfl
  · simp only [callNative, hr]
    cases r <;> rfl

theorem agrees_invoke (f : Val) (args : List Val) :
    Agrees env (f.invoke (unlimited host globals baseline synchronized).noting args)
      (apply host synchronized f args) := by
  rw [Val.invoke, apply]
  cases f.callable? with
  | none => exact agrees_throw _
  | some c => exact agrees_call host globals baseline synchronized _ _

theorem agrees_variable (x : String) (env : List (String × Val)) :
    Agrees env
      (match lookup globals env x with
        | some v => Evaluation.give v
        | none => Evaluation.throw (.undefined x) : Evaluating σ Val)
      (named globals x) := by
  intro d inputs noted used world
  cases h : lookup globals env x with
  | none =>
    refine ⟨.error (Mistake.undefined x).toVal, noted, world, rfl, ?_⟩
    simp only [named, h]
    rfl
  | some v =>
    refine ⟨.ok v, noted, world, rfl, ?_⟩
    simp only [named, h]
    rfl

/-! ## Expressions -/

open NestedYield in
mutual

/-- An expression without `yield` evaluates alike in a coroutine and directly. -/
theorem expr_agrees : ∀ e : Expr, inExpr e = [] →
    Agrees env (e.eval (unlimited host globals baseline synchronized).noting env)
      (expr host globals synchronized e)
  | .bool .., _ | .num .., _ | .str .., _ | .null _, _ => agrees_give _
  | .ident x _, _ => agrees_variable globals x env
  | .list es _, h => agrees_bind (exprs_agree es h) fun _ => agrees_give _
  | .object ps _, h => agrees_bind (properties_agree ps h) fun _ => agrees_give _
  | .member e _ _, h => agrees_bind (expr_agrees e h) fun _ => agrees_ofExcept _
  | .index e k _, h => by
    obtain ⟨he, hk⟩ := List.append_eq_nil_iff.1 h
    exact agrees_bind (expr_agrees e he) fun _ => agrees_bind (expr_agrees k hk) fun _ => agrees_ofExcept _
  | .call f es _, h => by
    obtain ⟨hf, hes⟩ := List.append_eq_nil_iff.1 h
    exact agrees_bind (expr_agrees f hf) fun _ => agrees_bind (exprs_agree es hes) fun _ =>
      agrees_invoke host globals baseline synchronized _ _
  | .yield _ _, h => by simp only [inExpr, reduceCtorEq] at h
  | .logic op l r _, h => by
    obtain ⟨hl, hr⟩ := List.append_eq_nil_iff.1 h
    refine agrees_bind (expr_agrees l hl) fun v => ?_
    cases op <;> cases v.truthy
    · exact agrees_give v
    · exact expr_agrees r hr
    · exact expr_agrees r hr
    · exact agrees_give v

theorem exprs_agree : ∀ es : List Expr, inExprs es = [] →
    Agrees env (Expr.evalAll (unlimited host globals baseline synchronized).noting env es)
      (exprs host globals synchronized es)
  | [], _ => agrees_give _
  | e :: es, h => by
    obtain ⟨he, hes⟩ := List.append_eq_nil_iff.1 h
    exact agrees_bind (expr_agrees e he) fun _ => agrees_bind (exprs_agree es hes) fun _ => agrees_give _

theorem properties_agree : ∀ ps : List (String × Expr), inProperties ps = [] →
    Agrees env (Expr.evalProperties (unlimited host globals baseline synchronized).noting env ps)
      (properties host globals synchronized ps)
  | [], _ => agrees_give _
  | (_, e) :: ps, h => by
    obtain ⟨he, hps⟩ := List.append_eq_nil_iff.1 h
    exact agrees_bind (expr_agrees e he) fun _ => agrees_bind (properties_agree ps hps) fun _ => agrees_give _

end

theorem option_agrees (o : Option Expr) (h : NestedYield.inOption o = []) :
    Agrees env (Expr.evalOption (unlimited host globals baseline synchronized).noting env o)
      (option host globals synchronized o) := by
  cases o with
  | none => exact agrees_give _
  | some e => exact expr_agrees host globals baseline synchronized e h

theorem keys_agree : ∀ path : List Segment, path.flatMap NestedYield.inSegment = [] →
    Agrees env (Segment.evalAll (unlimited host globals baseline synchronized).noting env path)
      (keys host globals synchronized path)
  | [], _ => agrees_give _
  | .property _ _ :: path, h => agrees_bind (keys_agree path h) fun _ => agrees_give _
  | .key e _ :: path, h => by
    rw [List.flatMap_cons] at h
    obtain ⟨he, hp⟩ := List.append_eq_nil_iff.1 h
    exact agrees_bind (expr_agrees host globals baseline synchronized e he) fun _ =>
      agrees_bind (keys_agree path hp) fun _ => agrees_give _

/-! ## Values of statements -/

/-- An evaluation that agrees with a direct one, or first hands the value of an operand out and goes on, when it
is made again, with what has been delivered. -/
inductive Resumable (env : List (String × Val)) : Evaluating σ α → Eval σ α → Prop
  | whole {m : Evaluating σ α} {k : Eval σ α} (h : Agrees env m k) : Resumable env m k
  | parted {m : Evaluating σ α} {k : Eval σ α} {op : Evaluating σ Val} {op' : Eval σ Val}
      {after : Val → Evaluating σ α} {after' : Val → Eval σ α} (hop : Agrees env op op')
      (hafter : ∀ d, Agrees env (after d) (after' d))
      (hout : ∀ s, m ⟨none, s⟩ = (op >>= Evaluation.suspend) ⟨none, s⟩)
      (hin : ∀ d s, m ⟨some d, s⟩ = after d ⟨none, s⟩)
      (hk : ∀ s, k s = (op' >>= fun v => Eval.exchange v >>= after') s) : Resumable env m k

/-- What follows a resumable evaluation belongs to its second part. -/
theorem Resumable.bind {m : Evaluating σ α} {k : Eval σ α} {f : α → Evaluating σ β} {g : α → Eval σ β}
    (h : Resumable env m k) (h' : ∀ a, Agrees env (f a) (g a)) : Resumable env (m >>= f) (k >>= g) := by
  cases h with
  | whole h => exact .whole (agrees_bind h h')
  | @parted op op' after after' hop hafter hout hin hk =>
    refine .parted hop (fun d => agrees_bind (hafter d) h') (fun s => ?_) (fun d s => ?_) fun s => ?_
    · rw [evaluation_bind, hout, evaluation_bind op, evaluation_bind op]
      rcases op ⟨none, s⟩ with ⟨r | v, t⟩ <;> rfl
    · rw [evaluation_bind, evaluation_bind, hin]
    · rw [eval_bind, hk, eval_bind, eval_bind]
      rcases op' s with ⟨r | v, t⟩
      · rfl
      · dsimp only
        rw [eval_bind, eval_bind]
        rcases Eval.exchange v t with ⟨r | d, u⟩ <;> rfl

open NestedYield in
/-- The value of a statement is resumable if no `yield` is nested in it. -/
theorem value_resumable (e : Expr) (h : inValue e = []) :
    Resumable env (e.eval (unlimited host globals baseline synchronized).noting env)
      (expr host globals synchronized e) := by
  cases e with
  | yield operand _ =>
    refine .parted (option_agrees host globals baseline synchronized operand h) (fun d => agrees_give d)
      (fun s => rfl) (fun d s => rfl) fun s => ?_
    rw [expr, eval_bind, eval_bind]
    rcases option host globals synchronized operand s with ⟨r | v, t⟩
    · rfl
    · dsimp only
      rw [eval_bind]
      rcases Eval.exchange v t with ⟨r | d, u⟩ <;> rfl
  | _ => exact .whole (expr_agrees host globals baseline synchronized _ h)

theorem optionValue_resumable (o : Option Expr) (h : NestedYield.inOptionValue o = []) :
    Resumable env (Expr.evalOption (unlimited host globals baseline synchronized).noting env o)
      (option host globals synchronized o) := by
  cases o with
  | none => exact .whole (agrees_give _)
  | some e => exact value_resumable host globals baseline synchronized e h

end VirtualComputer.Direct
