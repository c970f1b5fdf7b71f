import VirtualComputer.Proofs.Guest.EntryPoints
import VirtualComputer.Proofs.Guest.Positions
import VirtualComputer.Proofs.Validation.Rules

/-!
# Coroutines wait at whole values

If no `yield` of a program is nested in an expression, its coroutine hands values out only from a `yield` that is the
whole value of a statement.  There it waits (`resume_atYield`), and what is delivered to it next becomes the value of
that `yield`: its next step is what the statement does with it (`AtYield.takes`).  This holds of all programs that are
compiled (`compile_whole`), and of a coroutine that has been stored and read back (`AtYield.reread`).
-/

namespace VirtualComputer

variable {τ : Type}

/-! ## Expressions that hand nothing out -/

/-- An evaluation that does not hand a value out. -/
def Evaluation.Firm {α : Type} (m : Evaluation τ α) : Prop :=
  ∀ s v t, m s ≠ (.error (.suspend v), t)

section Firm

variable {α β : Type} {rt : Runtime τ} {env : List (String × Val)}

theorem give_firm (a : α) : (Evaluation.give (τ := τ) a).Firm := nofun

theorem throw_firm (m : Mistake) : (Evaluation.throw (τ := τ) (α := α) m).Firm := nofun

theorem andThen_firm {m : Evaluation τ α} {f : α → Evaluation τ β} (hm : m.Firm) (hf : ∀ a, (f a).Firm) :
    Evaluation.Firm (m >>= f) := by
  intro s v t
  show Evaluation.andThen m f s ≠ _
  rw [Evaluation.andThen]
  rcases hr : m s with ⟨i | a, u⟩
  · rintro ⟨⟩
    exact hm s v t hr
  · exact hf a u v t

theorem ofExcept_firm (r : Except Mistake Val) : (Evaluation.ofExcept (τ := τ) r).Firm := by
  cases r with
  | ok v => exact give_firm v
  | error m => exact throw_firm m

theorem invoke_firm (f : Val) (args : List Val) : (f.invoke rt args).Firm := by
  unfold Val.invoke
  split
  · intro s v t
    unfold Evaluation.call
    split <;> nofun
  · exact throw_firm _

open NestedYield in
mutual

/-- An expression without `yield` hands nothing out. -/
theorem eval_firm : ∀ e : Expr, inExpr e = [] → (e.eval rt env).Firm
  | .bool .., _ | .num .., _ | .str .., _ | .null _, _ => give_firm _
  | .ident x _, _ => by
    rw [Expr.eval]
    cases lookup rt.globals env x with
    | none => exact throw_firm _
    | some v => exact give_firm v
  | .list es _, h => andThen_firm (evalAll_firm es h) fun _ => give_firm _
  | .object ps _, h => andThen_firm (evalProperties_firm ps h) fun _ => give_firm _
  | .member e _ _, h => andThen_firm (eval_firm e h) fun _ => ofExcept_firm _
  | .index e k _, h => by
    obtain ⟨he, hk⟩ := List.append_eq_nil_iff.1 h
    exact andThen_firm (eval_firm e he) fun _ => andThen_firm (eval_firm k hk) fun _ => ofExcept_firm _
  | .call f es _, h => by
    obtain ⟨hf, hes⟩ := List.append_eq_nil_iff.1 h
    exact andThen_firm (eval_firm f hf) fun _ => andThen_firm (evalAll_firm es hes) fun _ => invoke_firm _ _
  | .yield _ _, h => by simp only [inExpr, reduceCtorEq] at h
  | .logic op l r _, h => by
    obtain ⟨hl, hr⟩ := List.append_eq_nil_iff.1 h
    refine andThen_firm (eval_firm l hl) fun v => ?_
    cases op <;> cases v.truthy
    · exact give_firm v
    · exact eval_firm r hr
    · exact eval_firm r hr
    · exact give_firm v

theorem evalAll_firm : ∀ es : List Expr, inExprs es = [] → (Expr.evalAll rt env es).Firm
  | [], _ => give_firm _
  | e :: es, h => by
    obtain ⟨he, hes⟩ := List.append_eq_nil_iff.1 h
    exact andThen_firm (eval_firm e he) fun _ => andThen_firm (evalAll_firm es hes) fun _ => give_firm _

theorem evalProperties_firm : ∀ ps : List (String × Expr), inProperties ps = [] →
    (Expr.evalProperties rt env ps).Firm
  | [], _ => give_firm _
  | (_, e) :: ps, h => by
    obtain ⟨he, hps⟩ := List.append_eq_nil_iff.1 h
    exact andThen_firm (eval_firm e he) fun _ => andThen_firm (evalProperties_firm ps hps) fun _ => give_firm _

end

theorem segments_firm : ∀ path : List Segment, path.flatMap NestedYield.inSegment = [] →
    (Segment.evalAll rt env path).Firm
  | [], _ => give_firm _
  | .property _ _ :: path, h => andThen_firm (segments_firm path h) fun _ => give_firm _
  | .key e _ :: path, h => by
    rw [List.flatMap_cons] at h
    obtain ⟨he, hp⟩ := List.append_eq_nil_iff.1 h
    exact andThen_firm (eval_firm e he) fun _ => andThen_firm (segments_firm path hp) fun _ => give_firm _

end Firm

/-! ## Statements and their values -/

/-- The expression that is the value of a statement. -/
def Stmt.value? : Stmt → Option Expr
  | .declare _ init _ => init
  | .assign _ _ value _ => some value
  | .return value _ => value
  | .expr e _ => some e
  | _ => none

/-- The statement of a frame has a `yield` as its value. -/
def Frame.AtYield (f : Frame) : Prop :=
  f.kind = f.node.frameKind ∧ ∃ operand span, f.node.value? = some (.yield operand span)

open NestedYield in
/-- Of the values of statements only a `yield` can hand something out. -/
theorem value_firm (rt : Runtime τ) (env : List (String × Val)) {e : Expr} (h : inValue e = []) :
    (e.eval rt env).Firm ∨ ∃ operand span, e = .yield operand span := by
  cases e with
  | yield operand span => exact .inr ⟨operand, span, rfl⟩
  | _ => exact .inl (eval_firm _ h)

theorem optionValue_firm {rt : Runtime τ} {env : List (String × Val)} {o : Option Expr}
    (h : NestedYield.inOptionValue o = []) :
    (Expr.evalOption rt env o).Firm ∨ ∃ operand span, o = some (.yield operand span) := by
  cases o with
  | none => exact .inl (give_firm _)
  | some e =>
    rcases value_firm rt env h with he | ⟨operand, span, rfl⟩
    · exact .inl he
    · exact .inr ⟨operand, span, rfl⟩

namespace Coroutine

/-- No `yield` is nested in the statements of the frames, and a value is handed out only by one of them. -/
structure Whole (co : Thread) : Prop where
  nodes : ∀ f ∈ co.frames, NestedYield.inStmt f.node = []
  pending : ∀ v, co.control = .suspend v → ∃ f fs, co.frames = f :: fs ∧ f.AtYield

/-- The coroutine waits at the `yield` of the statement on top. -/
structure WaitsAt (co : Thread) (f : Frame) (fs : List Frame) : Prop where
  status : co.status = .suspended
  control : co.control = .none
  delivered : co.delivered = none
  frames : co.frames = f :: fs
  yields : f.AtYield

/-- The coroutine of a program without nested `yield`s waits at a `yield`. -/
structure AtYield (co : Thread) : Prop where
  nodes : ∀ f ∈ co.frames, NestedYield.inStmt f.node = []
  waits : ∃ f fs, co.WaitsAt f fs

/-! ## Steps -/

/-- The coroutine after a step is whole. -/
def KeptWhole : StepResult τ → Prop
  | .next co _ | .done co _ => co.Whole
  | .fault .. => True

theorem whole_of_nodes {co : Thread} (h : ∀ f ∈ co.frames, NestedYield.inStmt f.node = [])
    (hc : ∀ v, co.control ≠ .suspend v) : co.Whole :=
  ⟨h, fun v hv => absurd hv (hc v)⟩

theorem unwind_nodes (c : Control Val) : ∀ (fs : List Frame) (env : List (String × Val)),
    (∀ f ∈ fs, NestedYield.inStmt f.node = []) →
      (∀ f ∈ (unwind c fs env).1, NestedYield.inStmt f.node = []) ∧
        ((unwind c fs env).2.2 = .none ∨ (unwind c fs env).2.2 = c)
  | [], _, _ => ⟨nofun, .inr rfl⟩
  | f :: fs, env, h => by
    obtain ⟨hf, hfs⟩ := List.forall_mem_cons.1 h
    unfold unwind
    dsimp only
    split
    · exact ⟨hfs, .inl rfl⟩
    · exact ⟨h, .inl rfl⟩
    · next hnode =>
      rw [hnode] at hf
      have hhandler := (List.append_eq_nil_iff.1 hf).2
      refine ⟨List.forall_mem_cons.2 ⟨hhandler, List.forall_mem_cons.2 ⟨?_, hfs⟩⟩, .inl rfl⟩
      exact (congrArg NestedYield.inStmt hnode).trans hf
    · exact unwind_nodes _ fs _ hfs

theorem exit_whole {co : Thread} (h : co.Whole) (hc : ∀ v, co.control ≠ .suspend v) (s : τ) :
    KeptWhole (exit co s) := by
  obtain ⟨hnodes, hcontrol⟩ := unwind_nodes co.control co.frames co.env h.nodes
  have hwhole : Whole { co with
      frames := (unwind co.control co.frames co.env).1
      env := (unwind co.control co.frames co.env).2.1
      control := (unwind co.control co.frames co.env).2.2 } := by
    refine whole_of_nodes hnodes fun v hv => ?_
    rcases hcontrol with hn | hn
    · cases hn.symm.trans hv
    · exact hc v (hn.symm.trans hv)
  unfold exit
  dsimp only
  split <;> exact hwhole

section Execute

variable {co : Thread} (h : ∀ f ∈ co.frames, NestedYield.inStmt f.node = []) (hc : co.control = .none)
include h

/-- An evaluation that may hand something out is one for the value of the statement on top. -/
theorem evaluating_whole {α : Type} {s : τ} {m : Evaluation τ α} {k : α → Thread → τ → StepResult τ}
    (hm : m.Firm ∨ ∃ f fs, co.frames = f :: fs ∧ f.AtYield)
    (hk : ∀ a d t, KeptWhole (k a { co with delivered := d } t)) : KeptWhole (evaluating co s m k) := by
  unfold evaluating
  rcases hr : m ⟨co.delivered, s⟩ with ⟨(v | e) | a, t⟩
  · rcases hm with hm | hm
    · exact absurd hr (hm _ v t)
    · exact ⟨h, fun _ _ => hm⟩
  · exact whole_of_nodes h nofun
  · exact hk a t.delivered t.outside

include hc

theorem measured_whole (rt : Runtime τ) (s : τ) : KeptWhole (measured rt co s) := by
  unfold measured
  rcases rt.admits co s with ⟨_ | _, t⟩
  · trivial
  · exact whole_of_nodes h fun v hv => by cases hc.symm.trans hv

theorem push_whole {s : Stmt} (hs : NestedYield.inStmt s = []) : (push s co).Whole :=
  whole_of_nodes (List.forall_mem_cons.2 ⟨hs, h⟩) fun v hv => by cases hc.symm.trans hv

end Execute

theorem inBody_get {body : List Stmt} (h : NestedYield.inBody body = []) {n : ℕ} {s : Stmt}
    (hs : body[n]? = some s) : NestedYield.inStmt s = [] := by
  induction body generalizing n with
  | nil => cases hs
  | cons s' body ih =>
    obtain ⟨hs', hbody⟩ := List.append_eq_nil_iff.1 h
    cases n with
    | zero =>
      cases hs
      exact hs'
    | succ n => exact ih hbody hs

/-- A step of the topmost frame, by the kinds of statements. -/
theorem execute_whole (rt : Runtime τ) {f : Frame} {fs : List Frame} {co : Thread}
    (h : ∀ g ∈ co.frames, NestedYield.inStmt g.node = []) (hf : co.frames = f :: fs) (hc : co.control = .none) (s : τ) :
    KeptWhole (execute rt f fs co s) := by
  obtain ⟨hnode, hfs⟩ := List.forall_mem_cons.1 (hf ▸ h)
  have hrest {co' : Thread} (hfr : co'.frames = fs) (hctl : ∀ v, co'.control ≠ .suspend v) : co'.Whole :=
    whole_of_nodes (hfr ▸ hfs) hctl
  have hnone {co' : Thread} (hctl : co'.control = .none) (v : Val) : co'.control ≠ .suspend v := by
    intro hv
    cases hctl.symm.trans hv
  unfold execute
  split
  · next next body span hkind hn =>
    rw [hn] at hnode
    split
    · exact hrest rfl (hnone hc)
    · next child hchild =>
      have hblock : NestedYield.inStmt f.node = [] := (congrArg NestedYield.inStmt hn).trans hnode
      exact @push_whole { co with frames := { f with kind := .block (next + 1) } :: fs }
        (List.forall_mem_cons.2 ⟨hblock, hfs⟩) hc _ (inBody_get hnode hchild)
  · next x init span hkind hn =>
    rw [hn] at hnode
    refine evaluating_whole h ((optionValue_firm hnode).imp_right fun hy => ?_) fun v d t => ?_
    · obtain ⟨operand, sp, hy⟩ := hy
      exact ⟨f, fs, hf, by rw [hkind, hn]; rfl, operand, sp, by rw [hn]; exact hy⟩
    exact @measured_whole τ { co with frames := fs, env := (x, v) :: co.env, delivered := d } hfs hc rt t
  · next x path value span hkind hn =>
    rw [hn] at hnode
    obtain ⟨hpath, hvalue⟩ := List.append_eq_nil_iff.1 hnode
    refine evaluating_whole h ?_ fun p d t => ?_
    · rcases value_firm rt co.env hvalue with he | ⟨operand, sp, rfl⟩
      · exact .inl (andThen_firm he fun _ => andThen_firm (segments_firm path hpath) fun _ => give_firm _)
      · exact .inr ⟨f, fs, hf, by rw [hkind, hn]; rfl, operand, sp, by rw [hn]; rfl⟩
    · dsimp only
      split
      · exact whole_of_nodes h fun v hv => by cases hv
      · next env _ =>
        exact @measured_whole τ { co with env, frames := fs, delivered := d } hfs hc rt t
  · next test yes no span hkind hn =>
    rw [hn] at hnode
    obtain ⟨htest, hno⟩ := List.append_eq_nil_iff.1 hnode
    obtain ⟨htest, hyes⟩ := List.append_eq_nil_iff.1 htest
    refine evaluating_whole h (.inl (eval_firm test htest)) fun v d t => ?_
    dsimp only
    split
    · exact @push_whole { co with frames := fs, delivered := d } hfs hc _ hyes
    · split
      · exact @push_whole { co with frames := fs, delivered := d } hfs hc _ hno
      · exact hrest rfl (hnone hc)
  · next test body span hkind hn =>
    rw [hn] at hnode
    obtain ⟨htest, hbody⟩ := List.append_eq_nil_iff.1 hnode
    refine evaluating_whole h (.inl (eval_firm test htest)) fun v d t => ?_
    split
    · exact @push_whole { co with delivered := d } h hc _ hbody
    · exact hrest rfl (hnone hc)
  · next value span hkind hn =>
    rw [hn] at hnode
    refine evaluating_whole h ((optionValue_firm hnode).imp_right fun hy => ?_) fun v d t => hrest rfl ?_
    · obtain ⟨operand, sp, hy⟩ := hy
      exact ⟨f, fs, hf, by rw [hkind, hn]; rfl, operand, sp, by rw [hn]; exact hy⟩
    · intro v hv
      cases hv
  · next body x handler span hkind hn =>
    have hn' := hnode
    rw [hn] at hn'
    exact @push_whole { co with frames := { f with kind := .attempt .body } :: fs }
      (List.forall_mem_cons.2 ⟨hnode, hfs⟩) hc _ (List.append_eq_nil_iff.1 hn').1
  · exact hrest rfl (hnone hc)
  · next e span hkind hn =>
    rw [hn] at hnode
    refine evaluating_whole h ((value_firm rt co.env hnode).imp_right fun hy => ?_) fun v d t => hrest rfl (hnone hc)
    obtain ⟨operand, sp, hy⟩ := hy
    exact ⟨f, fs, hf, by rw [hkind, hn]; rfl, operand, sp, by rw [hn, hy]; rfl⟩
  · exact hrest rfl fun v hv => by cases hv
  · exact hrest rfl fun v hv => by cases hv
  · trivial

theorem step_whole (rt : Runtime τ) {co : Thread} (h : co.Whole) (s : τ) : KeptWhole (step rt co s) := by
  unfold step
  split
  · exact h
  · exact h
  · next hc hf => exact execute_whole rt h.nodes hf hc s
  · next hn _ _ => exact exit_whole h hn s

theorem run_whole (rt : Runtime τ) : ∀ (n : ℕ) {co : Thread} (_ : co.Whole) (s : τ), KeptWhole (run rt n co s)
  | 0, _, h, _ => h
  | n + 1, co, h, s => by
    have hs := step_whole rt h s
    rw [run]
    cases hr : step rt co s with
    | next co' s' =>
      rw [hr] at hs
      exact run_whole rt n hs s'
    | done co' s' =>
      rw [hr] at hs
      exact hs
    | fault f co' s' => trivial

/-! ## Resumes -/

/-- A resume that hands a value out leaves the coroutine at the `yield` that did it. -/
theorem resume_atYield {rt : Runtime τ} {steps : ℕ} {d v : Val} {co : Thread} {s : τ}
    (hn : ∀ f ∈ co.frames, NestedYield.inStmt f.node = []) (hc : co.control = .none)
    (h : (co.resume rt steps d s).1 = .ok (.yielded v)) : (co.resume rt steps d s).2.1.AtYield := by
  have hconclude {r : StepResult τ} (hr : KeptWhole r) (h : (conclude r).1 = .ok (.yielded v)) :
      (conclude r).2.1.AtYield := by
    cases r with
    | next co s | fault f co s => cases h
    | done co s =>
      obtain ⟨hcontrol, hleft⟩ := outcome_yielded (Except.ok.inj h)
      obtain ⟨f, fs, hf, hy⟩ := hr.pending v hcontrol
      rw [conclude, hleft]
      exact ⟨hr.nodes, f, fs, rfl, rfl, rfl, hf, hy⟩
  have hwhole (d : Option Val) : Whole { co with delivered := d, status := .running } :=
    whole_of_nodes hn fun v hv => by cases hc.symm.trans hv
  cases hs : co.status with
  | fresh =>
    rw [resume_fresh hs] at h ⊢
    exact hconclude (run_whole rt steps (hwhole co.delivered) s) h
  | suspended =>
    rw [resume_suspended hs] at h ⊢
    exact hconclude (run_whole rt steps (hwhole (some d)) s) h
  | running =>
    rw [resume_running hs] at h
    cases h
  | dead =>
    rw [resume_dead hs] at h
    cases h

/-! ## What is delivered -/

/-- What the statement of the topmost frame does with its value. -/
def receive (rt : Runtime τ) (f : Frame) (fs : List Frame) (v : Val) (co : Thread) (s : τ) : StepResult τ :=
  match f.node with
  | .declare x _ _ => measured rt { co with frames := fs, env := (x, v) :: co.env } s
  | .assign x path _ _ =>
    evaluating co s (Segment.evalAll rt co.env path) fun ks co s =>
      match writeVariable x ks v co.env with
      | (env, some m) => .next { co with env, control := .throw m.toVal } s
      | (env, none) => measured rt { co with env, frames := fs } s
  | .return .. => .next { co with frames := fs, control := .return v } s
  | _ => .next { co with frames := fs } s

theorem evaluating_bind {α β : Type} {co : Thread} {s : τ} {m : Evaluation τ α} {f : α → Evaluation τ β}
    {k : β → Thread → τ → StepResult τ} :
    evaluating co s (m >>= f) k = evaluating co s m fun a co s => evaluating co s (f a) k := by
  show evaluating co s (Evaluation.andThen m f) k = _
  unfold evaluating Evaluation.andThen
  rcases m ⟨co.delivered, s⟩ with ⟨(v | v) | a, t⟩ <;> rfl

/-- An evaluation changes of a coroutine only what has been delivered to it. -/
theorem evaluating_congr {α : Type} {co : Thread} {s : τ} {m : Evaluation τ α} {k l : α → Thread → τ → StepResult τ}
    (h : ∀ a d t, k a { co with delivered := d } t = l a { co with delivered := d } t) :
    evaluating co s m k = evaluating co s m l := by
  unfold evaluating
  rcases m ⟨co.delivered, s⟩ with ⟨(v | v) | a, t⟩
  · rfl
  · rfl
  · exact h a t.delivered t.outside

/-- A statement with a value evaluates it and goes on with it. -/
theorem execute_value (rt : Runtime τ) {f : Frame} (fs : List Frame) {e : Expr} (hk : f.kind = f.node.frameKind)
    (he : f.node.value? = some e) (co : Thread) (s : τ) :
    execute rt f fs co s = evaluating co s (e.eval rt co.env) (receive rt f fs) := by
  obtain ⟨kind, base, node⟩ := f
  obtain rfl : kind = node.frameKind := hk
  cases node with
  | declare x init span =>
    cases he
    rfl
  | assign x path value span =>
    obtain rfl : e = value := (Option.some.inj he).symm
    unfold execute
    dsimp only [Stmt.frameKind]
    rw [evaluating_bind]
    exact evaluating_congr fun v d t => evaluating_bind.trans rfl
  | «return» value span =>
    cases he
    rfl
  | expr e span =>
    cases he
    rfl
  | _ => cases he

/-- What is delivered becomes the value of the `yield` at which a coroutine waits: its next step is what the statement
of that `yield` does with it. -/
def Takes (co : Thread) (v : Val) : Prop :=
  ∃ f fs, co.WaitsAt f fs ∧ ∀ {τ : Type} (rt : Runtime τ) (s : τ),
    step rt { co with delivered := some v, status := .running } s = receive rt f fs v { co with status := .running } s

theorem AtYield.takes {co : Thread} (h : co.AtYield) (v : Val) : co.Takes v := by
  obtain ⟨f, fs, hw⟩ := h.waits
  obtain ⟨hkind, operand, span, hvalue⟩ := hw.yields
  refine ⟨f, fs, hw, fun rt s => ?_⟩
  obtain ⟨frames, env, control, delivered, status, guarded⟩ := co
  obtain ⟨rfl, rfl, rfl, rfl, -⟩ := hw
  rw [step]
  exact execute_value rt fs hkind hvalue _ s

end Coroutine

/-! ## Programs -/

/-- The programs that are compiled have no nested `yield`s. -/
theorem compile_whole {what source : String} {program : Stmt} (h : compile what source = .ok program) :
    NestedYield.inStmt program = [] := by
  unfold compile at h
  split at h
  · cases h
  · split at h
    · cases h
    · next hp =>
      cases h
      exact check_of_faultless hp .nestedYield

/-! ## Positions -/

namespace NestedYield

mutual

theorem inExpr_bare : ∀ e : Expr, inExpr e = [] → inExpr e.bare = []
  | .bool .., _ | .num .., _ | .str .., _ | .null _, _ | .ident .., _ => rfl
  | .list es _, h => inExprs_bare es h
  | .object ps _, h => inProperties_bare ps h
  | .member e _ _, h => inExpr_bare e h
  | .index e k _, h =>
    have ⟨he, hk⟩ := List.append_eq_nil_iff.1 h
    List.append_eq_nil_iff.2 ⟨inExpr_bare e he, inExpr_bare k hk⟩
  | .call f es _, h =>
    have ⟨hf, hes⟩ := List.append_eq_nil_iff.1 h
    List.append_eq_nil_iff.2 ⟨inExpr_bare f hf, inExprs_bare es hes⟩
  | .yield _ _, h => by simp only [inExpr, reduceCtorEq] at h
  | .logic _ l r _, h =>
    have ⟨hl, hr⟩ := List.append_eq_nil_iff.1 h
    List.append_eq_nil_iff.2 ⟨inExpr_bare l hl, inExpr_bare r hr⟩

theorem inExprs_bare : ∀ es : List Expr, inExprs es = [] → inExprs (Expr.bareAll es) = []
  | [], _ => rfl
  | e :: es, h =>
    have ⟨he, hes⟩ := List.append_eq_nil_iff.1 h
    List.append_eq_nil_iff.2 ⟨inExpr_bare e he, inExprs_bare es hes⟩

theorem inProperties_bare : ∀ ps : List (String × Expr), inProperties ps = [] →
    inProperties (Expr.bareProperties ps) = []
  | [], _ => rfl
  | (_, e) :: ps, h =>
    have ⟨he, hps⟩ := List.append_eq_nil_iff.1 h
    List.append_eq_nil_iff.2 ⟨inExpr_bare e he, inProperties_bare ps hps⟩

end

theorem inValue_bare (e : Expr) (h : inValue e = []) : inValue e.bare = [] := by
  cases e with
  | yield operand span =>
    cases operand with
    | none => rfl
    | some e => exact inExpr_bare e h
  | _ => exact inExpr_bare _ h

theorem inOptionValue_bare (o : Option Expr) (h : inOptionValue o = []) : inOptionValue (o.map Expr.bare) = [] := by
  cases o with
  | none => rfl
  | some e => exact inValue_bare e h

theorem inSegments_bare : ∀ path : List Segment, path.flatMap inSegment = [] →
    (path.map Segment.bare).flatMap inSegment = []
  | [], _ => rfl
  | .property _ _ :: path, h => inSegments_bare path h
  | .key e _ :: path, h => by
    rw [List.flatMap_cons] at h
    rw [List.map_cons, List.flatMap_cons]
    obtain ⟨he, hp⟩ := List.append_eq_nil_iff.1 h
    exact List.append_eq_nil_iff.2 ⟨inExpr_bare e he, inSegments_bare path hp⟩

mutual

/-- Where a statement has its `yield`s does not depend on positions. -/
theorem inStmt_bare : ∀ s : Stmt, inStmt s = [] → inStmt s.bare = []
  | .block body _, h => inBody_bare body h
  | .declare _ init _, h => inOptionValue_bare init h
  | .assign _ path e _, h =>
    have ⟨hp, he⟩ := List.append_eq_nil_iff.1 h
    List.append_eq_nil_iff.2 ⟨inSegments_bare path hp, inValue_bare e he⟩
  | .return e _, h => inOptionValue_bare e h
  | .expr e _, h => inValue_bare e h
  | .branch e s t _, h =>
    have ⟨hs, ht⟩ := List.append_eq_nil_iff.1 h
    have ⟨he, hs⟩ := List.append_eq_nil_iff.1 hs
    List.append_eq_nil_iff.2 ⟨List.append_eq_nil_iff.2 ⟨inExpr_bare e he, inStmt_bare s hs⟩, inOptionStmt_bare t ht⟩
  | .loop e s _, h =>
    have ⟨he, hs⟩ := List.append_eq_nil_iff.1 h
    List.append_eq_nil_iff.2 ⟨inExpr_bare e he, inStmt_bare s hs⟩
  | .attempt s _ t _, h =>
    have ⟨hs, ht⟩ := List.append_eq_nil_iff.1 h
    List.append_eq_nil_iff.2 ⟨inStmt_bare s hs, inStmt_bare t ht⟩
  | .break _, _ | .continue _, _ => rfl

theorem inBody_bare : ∀ body : List Stmt, inBody body = [] → inBody (Stmt.bareAll body) = []
  | [], _ => rfl
  | s :: body, h =>
    have ⟨hs, hbody⟩ := List.append_eq_nil_iff.1 h
    List.append_eq_nil_iff.2 ⟨inStmt_bare s hs, inBody_bare body hbody⟩

theorem inOptionStmt_bare : ∀ o : Option Stmt, inOptionStmt o = [] → inOptionStmt (Stmt.bareOption o) = []
  | none, _ => rfl
  | some s, h => inStmt_bare s h

end

end NestedYield

theorem Frame.AtYield.bare {f : Frame} (h : f.AtYield) : f.bare.AtYield := by
  obtain ⟨kind, base, node⟩ := f
  obtain ⟨hkind, operand, span, hvalue⟩ := h
  refine ⟨hkind.trans ?_, Expr.bareOption operand, .none, ?_⟩
  · show node.frameKind = node.bare.frameKind
    cases node <;> rfl
  · show node.bare.value? = _
    cases node with
    | declare x init _ =>
      cases hvalue
      rfl
    | assign x path value _ =>
      cases hvalue
      rfl
    | «return» value _ =>
      cases hvalue
      rfl
    | expr e _ =>
      cases hvalue
      rfl
    | _ => cases hvalue

/-- A coroutine that has been stored and read back waits where it waited. -/
theorem Coroutine.AtYield.reread {co co' : Thread} (h : co.AtYield) (hr : co.Reread co') : co'.AtYield := by
  obtain ⟨hnodes, f, fs, hw⟩ := h
  refine ⟨fun g hg => ?_, f.bare, fs.map Frame.bare, hr.status.trans hw.status, hr.control hw.control,
    hr.delivered hw.delivered, ?_, hw.yields.bare⟩
  · rw [hr.frames] at hg
    obtain ⟨g, hmem, rfl⟩ := List.mem_map.1 hg
    exact NestedYield.inStmt_bare g.node (hnodes g hmem)
  · rw [hr.frames, hw.frames, List.map_cons]

end VirtualComputer
