import VirtualComputer.Grammar.Expression
import VirtualComputer.Proofs.Guest.Ceiling
import VirtualComputer.Proofs.Guest.Scoping

/-!
# What operators mean

Operators other than the logical ones are calls by name.  The library has a native under each of these names, and
calling it comes to what the native makes of its arguments (`call_operator`); but a variable of the name is found first
(`eval_operator`).  So an operator means its native as long as there is no such variable, which is so all along if the
program declares none (`operators_by_name`).
-/

namespace VirtualComputer

/-! ## Natives of operators -/

/-- Whether a native is the meaning of an operator. -/
def Native.isOperator : Native → Bool
  | .add | .sub | .mul | .div | .mod | .eq | .ne | .lt | .lte | .gt | .gte | .not | .neg => true
  | _ => false

/-- The operators other than the logical ones stand for the names of such natives. -/
theorem operators_named : (∀ level ∈ Grammar.levels, ∀ p ∈ level, (∃ c, p.2 = .logic c) ∨
      ∃ n : Native, n.isOperator ∧ p.2 = .builtin n.name) ∧
    ∀ p ∈ Grammar.unaryOperators, ∃ n : Native, n.isOperator ∧ p.2 = n.name := by
  constructor
  · simp only [Grammar.levels, List.forall_mem_cons]
    exact ⟨⟨.inl ⟨_, rfl⟩, nofun⟩, ⟨.inl ⟨_, rfl⟩, nofun⟩, ⟨.inr ⟨.eq, rfl, rfl⟩, .inr ⟨.ne, rfl, rfl⟩, nofun⟩,
      ⟨.inr ⟨.lte, rfl, rfl⟩, .inr ⟨.gte, rfl, rfl⟩, .inr ⟨.lt, rfl, rfl⟩, .inr ⟨.gt, rfl, rfl⟩, nofun⟩,
      ⟨.inr ⟨.add, rfl, rfl⟩, .inr ⟨.sub, rfl, rfl⟩, nofun⟩,
      ⟨.inr ⟨.mul, rfl, rfl⟩, .inr ⟨.div, rfl, rfl⟩, .inr ⟨.mod, rfl, rfl⟩, nofun⟩, nofun⟩
  · simp only [Grammar.unaryOperators, List.forall_mem_cons]
    exact ⟨⟨.not, rfl, rfl⟩, ⟨.neg, rfl, rfl⟩, nofun⟩

/-- The library has each of them under its name. -/
theorem library_operator {n : Native} (hn : n.isOperator) (timeout : Float) (drivers : Entries String) :
    Entries.get? n.name (library timeout drivers) = some (.native n) := by
  have hmem : n ∈ Native.builtins := by cases n <;> first | decide | cases hn
  obtain ⟨v, hv⟩ := library_global (List.mem_append_left _ (List.mem_map_of_mem hmem)) timeout drivers
  rw [hv]
  rcases List.mem_append.1 (Entries.mem_ofList (Entries.mem_get hv)) with h | h
  · obtain ⟨m, hm, hpair⟩ := List.mem_map.1 h
    obtain ⟨hname, rfl⟩ := Prod.mk.inj hpair
    have hinj : ∀ m ∈ Native.builtins, ∀ n ∈ Native.builtins, m.name = n.name → m = n := by decide
    rw [hinj m hm n hmem hname]
  · have htables : n.name ∉ ["computer", "component", "persistence", "system", "drivers"] := by
      cases n <;> decide
    exact absurd (List.mem_map_of_mem (f := Prod.fst) h) htables

section

variable {σ : Type} {rt : Runtime (Session σ)}

/-- Called with a host, they come to what they make of their arguments. -/
theorem call_operator (hrt : rt.OverLibrary) {n : Native} (hn : n.isOperator) (args : List Val) :
    Evaluation.call rt n args = Evaluation.ofExcept (n.apply args) := by
  obtain ⟨host, timeout, drivers, baseline, conditions, rfl⟩ := hrt
  funext s
  have hcall : n.call host conditions args s.outside = Native.settle (n.apply args) s.outside := by
    cases n <;> first | rfl | cases hn
  have hpure : (Runtime.ofHost host (library timeout drivers) baseline conditions).call n args s.outside =
      Native.settle (n.apply args) s.outside := hcall
  rw [Evaluation.call, hpure]
  cases n.apply args <;> rfl

/-! ## Operators as calls by name -/

/-- The call of a native by its name: of the innermost variable of the name if there is one. -/
def Native.operate {τ : Type} (rt : Runtime τ) (env : List (String × Val)) (n : Native) (args : List Val) :
    Evaluation τ Val :=
  match env.find? (·.1 = n.name) with
  | some (_, f) => f.invoke rt args
  | none => .ofExcept (n.apply args)

variable {n : Native} {env : List (String × Val)}

theorem operate_unbound {τ : Type} {rt : Runtime τ} (h : n.name ∉ env.map Prod.fst) (args : List Val) :
    n.operate rt env args = .ofExcept (n.apply args) := by
  have hf : env.find? (·.1 = n.name) = none := by
    refine List.find?_eq_none.2 fun b hb hname => h ?_
    rw [← of_decide_eq_true hname]
    exact List.mem_map_of_mem hb
  rw [Native.operate, hf]

/-- An operator evaluates its operands and calls its native by name. -/
theorem eval_operator (hrt : rt.OverLibrary) (hn : n.isOperator) (env : List (String × Val)) (args : List Expr)
    (span : Span) : (Expr.builtin n.name args span).eval rt env = Expr.evalAll rt env args >>= n.operate rt env := by
  have hglobal : Entries.get? n.name rt.globals = some (.native n) := by
    obtain ⟨host, timeout, drivers, baseline, conditions, rfl⟩ := hrt
    exact library_operator hn timeout drivers
  have hlookup : ∃ f, lookup rt.globals env n.name = some f ∧ f.invoke rt = n.operate rt env := by
    unfold lookup Native.operate
    cases env.find? (·.1 = n.name) with
    | some b => exact ⟨b.2, rfl, rfl⟩
    | none => exact ⟨_, hglobal, funext fun vs => call_operator hrt hn vs⟩
  obtain ⟨f, hf, hinvoke⟩ := hlookup
  rw [Expr.builtin, Expr.eval, Expr.eval, hf, ← hinvoke]
  rfl

end

/-! ## Names that a program declares -/

/-- A `let` or a handler of the program declares the name. -/
def Stmt.Declares (program : Stmt) (x : String) : Prop :=
  ∃ around s, program.Inside around s ∧ (s.declares? = some x ∨ x ∈ s.binds .handler)

/-- A step of the topmost frame makes no variables but what its statement declares. -/
theorem Moves.names {f : Frame} {fs frames : List Frame} {env env' : List (String × Val)} {c : Control Val}
    (h : Moves f fs env frames env' c) : ∀ x ∈ env'.map Prod.fst, x ∈ env.map Prod.fst ∨ f.node.declares? = some x := by
  intro x hx
  cases h with
  | done _ hn =>
    rw [hn, Frame.after, List.mem_append, Option.mem_toList] at hx
    rcases hx with hx | hx
    · exact .inr hx
    · split at hx
      · exact .inl (List.mem_of_mem_drop hx)
      · exact .inl hx
  | enter _ _ _ _ | choose _ _ _ | exit _ => exact .inl hx
  | stay hn _ => exact .inl (hn ▸ hx)

namespace Coroutine

/-- A coroutine at a place of a program that has declared all its variables. -/
structure Declared (program : Stmt) (co : Thread) : Prop where
  standing : co.Standing program
  names : ∀ x ∈ co.env.map Prod.fst, program.Declares x

section

variable {τ : Type} {program : Stmt} {rt : Runtime τ} {co co' : Thread} {s s' : τ}

theorem execute_declares {f : Frame} {fs : List Frame} (h : co.Declared program) (hf : co.frames = f :: fs)
    (hc : co.control = .none) (rt : Runtime τ) (s : τ) :
    (execute rt f fs co s).Leads fun co' => ∀ x ∈ co'.env.map Prod.fst, program.Declares x := by
  obtain ⟨_, hplaced⟩ := h.standing
  obtain ⟨around, hinside⟩ := hplaced.frames_inside f (hf ▸ List.mem_cons_self)
  refine (execute_moves rt f fs s hf hc).mono fun co' hmoves x hx => ?_
  rcases hmoves.names x hx with hx | hd
  · exact h.names x hx
  · exact ⟨around, f.node, hinside, .inl hd⟩

theorem exit_declares (h : co.Declared program) (he : exit co s = .next co' s') :
    ∀ x ∈ co'.env.map Prod.fst, program.Declares x := by
  have hkept {env : List (String × Val)} (henv : env <:+ co.env) : ∀ x ∈ env.map Prod.fst, program.Declares x :=
    fun x hx => h.names x ((henv.map Prod.fst).subset hx)
  rcases exit_writes he with henv | ⟨gs, f, fs, body, x, handler, span, e, rest, hf, -, hn, -, henv, hrest⟩
  · exact hkept henv
  · obtain ⟨_, hplaced⟩ := h.standing
    obtain ⟨around, hinside⟩ := hplaced.frames_inside f (hf ▸ List.mem_append_right _ List.mem_cons_self)
    rw [henv, List.map_cons]
    refine List.forall_mem_cons.2 ⟨⟨around, _, hinside, .inr ?_⟩, hkept hrest⟩
    rw [hn]
    exact List.mem_cons_self

/-- All variables are declared by the program in the course of all resumes. -/
theorem declared_keeps (allowed : Runtime τ → Prop) (program : Stmt) (guarded : Bool) :
    Keeps allowed program guarded (Declared program) (Declared program) where
  fresh := ⟨(standing_keeps allowed program guarded).fresh, nofun⟩
  begun {co} d h := by
    refine ⟨(standing_keeps allowed program guarded).begun d h.standing, ?_⟩
    unfold begun
    split <;> exact h.names
  next {rt co co' s s'} _ h hs := by
    refine ⟨step_standing h.standing hs, ?_⟩
    rcases step_next_cases hs with ⟨f, fs, hc, hf, ht⟩ | ⟨-, he⟩
    · exact (execute_declares h hf hc rt s).next ht
    · exact exit_declares h he
  yielded {rt co co' s s' v} hrt h hs hv := by
    refine ⟨(standing_keeps allowed program guarded).yielded hrt h.standing hs hv, ?_⟩
    rw [outcome_suspend hv]
    rcases step_suspend_cases hs hv with rfl | ⟨f, fs, hc, hf, ht⟩
    · exact h.names
    · have hnames := (execute_declares h hf hc rt s).done ht
      exact hnames

end

end Coroutine

/-! ## The main result -/

/-- At every stage of a program over the library: an operator evaluates its operands, and then calls the innermost
variable that has the name of its native if there is one, which fails if that holds no function.  Where there is none it
comes to what its native makes of them, which is so all along if no `let` and no handler of the program declares the
name. -/
theorem operators_by_name {σ : Type} {program : Stmt} {guarded : Bool} {rt : Runtime (Session σ)} {co : Thread}
    {s : Session σ} (h : Coroutine.Stage Runtime.OverLibrary program guarded rt co s) :
    (∀ level ∈ Grammar.levels, ∀ p ∈ level, (∃ c, p.2 = .logic c) ∨
      ∃ n : Native, n.isOperator ∧ p.2 = .builtin n.name ∧ ∀ l r,
        (p.2.apply l r).eval rt co.env = Expr.evalAll rt co.env [l, r] >>= n.operate rt co.env) ∧
    (∀ p ∈ Grammar.unaryOperators, ∃ n : Native, n.isOperator ∧ p.2 = n.name ∧ ∀ e span,
      (Expr.builtin p.2 [e] span).eval rt co.env = Expr.evalAll rt co.env [e] >>= n.operate rt co.env) ∧
    ∀ n : Native, n.isOperator → ∀ vs,
      (∀ x f, co.env.find? (·.1 = n.name) = some (x, f) → n.operate rt co.env vs = f.invoke rt vs ∧
        (f.callable? = none → n.operate rt co.env vs = .throw (.notCallable f.kind))) ∧
      (n.name ∉ co.env.map Prod.fst → n.operate rt co.env vs = .ofExcept (n.apply vs)) ∧
      (¬ program.Declares n.name → n.operate rt co.env vs = .ofExcept (n.apply vs)) := by
  obtain ⟨hbinary, hunary⟩ := operators_named
  refine ⟨fun level hlevel p hp => ?_, fun p hp => ?_, fun n hn vs => ⟨fun x f hf => ?_, fun hx => ?_, fun hnone => ?_⟩⟩
  · refine (hbinary level hlevel p hp).imp_right fun ⟨n, hn, hname⟩ => ⟨n, hn, hname, fun l r => ?_⟩
    rw [hname]
    exact eval_operator h.runtime hn _ _ _
  · obtain ⟨n, hn, hname⟩ := hunary p hp
    refine ⟨n, hn, hname, fun e span => ?_⟩
    rw [hname]
    exact eval_operator h.runtime hn _ _ _
  · have hoperate : n.operate rt co.env vs = f.invoke rt vs := by rw [Native.operate, hf]
    refine ⟨hoperate, fun hcallable => ?_⟩
    rw [hoperate, Val.invoke, hcallable]
  · exact operate_unbound hx vs
  · have hdeclared := (Coroutine.declared_keeps _ program guarded).stage h
    exact operate_unbound (fun hx => hnone (hdeclared.names _ hx)) vs

/-- Two strings are joined by an operator. -/
def joining : Expr :=
  (Grammar.Operator.builtin "add").apply (.str "a" .none) (.str "b" .none)

/-- A program that does so after it has declared a variable of that name. -/
def shadowingProgram : Stmt :=
  .block [.declare "add" (some (.bool true .none)) .none, .expr joining .none] .none

/-- The operator fails, although the native joins the strings. -/
theorem joining_shadowed : Native.add.apply [.str "a", .str "b"] = .ok (.str "ab") ∧
    joining.eval quietRuntime [("add", .bool true)] ⟨none, ⟨0, ()⟩⟩ =
      (.error (.throw (Mistake.notCallable (Val.bool true).kind).toVal), ⟨none, ⟨0, ()⟩⟩) := by
  have hco : Coroutine.Stage Runtime.OverLibrary shadowingProgram true quietRuntime
      ⟨[⟨.expr, 1, .expr joining .none⟩, ⟨.block 2, 0, shadowingProgram⟩], [("add", .bool true)], .none, none, .running,
        true⟩ ⟨_, ()⟩ :=
    .next (.next (.next (.begun .fresh quiet_overLibrary .null ⟨0, ()⟩) rfl) rfl) rfl
  obtain ⟨hbinary, -, hmeaning⟩ := operators_by_name hco
  rcases hbinary [("+", .builtin "add"), ("-", .builtin "sub")] (by simp [Grammar.levels]) _ List.mem_cons_self
    with ⟨_, hc⟩ | ⟨n, hn, hname, heval⟩
  · cases hc
  · obtain rfl : n = .add := by
      injection hname with hname
      revert hname
      cases n <;> decide
    have hfails := ((hmeaning .add rfl [.str "a", .str "b"]).1 "add" (.bool true) rfl).2 rfl
    refine ⟨rfl, ?_⟩
    rw [joining, heval]
    exact congrFun hfails _

end VirtualComputer
