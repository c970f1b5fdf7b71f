import VirtualComputer.Proofs.Entries
import VirtualComputer.Proofs.Guest.Raising
import VirtualComputer.Proofs.Validation.Scopes

/-!
# Names of programs that pass the rule on variables

Run over the library, a program in which no undefined variable is reported finds every name that it reads
(`names_found`): names declared before have variables at every stage, and the other ones are globals.  What it assigns
need not have a variable, because the name of a global will do for the rule but not for a write: such an assignment
fails, and nothing else does for want of a name (`only_globals_missed`).
-/

namespace VirtualComputer

/-- Natives are those of some host, and the globals those of the library. -/
def Runtime.OverLibrary {σ : Type} (rt : Runtime (Session σ)) : Prop :=
  ∃ host timeout drivers baseline conditions, rt = .ofHost host (library timeout drivers) baseline conditions

/-- The runtime of the library with a host around which nothing happens. -/
def quietRuntime : Runtime (Session Unit) :=
  .ofHost silentHost (library 5 []) 0 ⟨none, false⟩

theorem quiet_overLibrary : quietRuntime.OverLibrary :=
  ⟨_, _, _, _, _, rfl⟩

/-! ## Values of names -/

theorem lookup_variable {globals : Entries Val} {env : List (String × Val)} {x : String} (h : x ∈ env.map Prod.fst) :
    ∃ v, lookup globals env x = some v := by
  obtain ⟨⟨y, v⟩, hmem, rfl⟩ := List.mem_map.1 h
  unfold lookup
  cases hf : env.find? (·.1 = y) with
  | none => simpa using List.find?_eq_none.1 hf _ hmem
  | some b => exact ⟨b.2, rfl⟩

theorem lookup_global {globals : Entries Val} {x : String} {v : Val} (h : Entries.get? x globals = some v)
    (env : List (String × Val)) : ∃ w, lookup globals env x = some w := by
  unfold lookup
  cases env.find? (·.1 = x) with
  | none => exact ⟨v, h⟩
  | some b => exact ⟨b.2, rfl⟩

/-- The library has all globals that the rule takes for granted. -/
theorem library_global {x : String} (h : x ∈ globalNames) (timeout : Float) (drivers : Entries String) :
    ∃ v, Entries.get? x (library timeout drivers) = some v := by
  refine Entries.get_ofList ?_
  rw [List.map_append, List.map_map, List.mem_append]
  refine (List.mem_append.1 h).imp_right fun h => ?_
  -- the tables are listed in another order
  simp only [List.mem_cons, List.not_mem_nil, or_false] at h
  rcases h with rfl | rfl | rfl | rfl | rfl <;> simp

theorem not_mem_names {env : List (String × Val)} {x : String} : x ∉ env.map Prod.fst ↔ ∀ v, (x, v) ∉ env := by
  simp

/-! ## Stages -/

section

variable {σ : Type} {program : Stmt} (h : ∀ p ∈ program.problems, p.rule ≠ Rule.undefinedVariable.id)
  {guarded : Bool} {rt : Runtime (Session σ)} {co : Thread} {s : Session σ}
  (hco : Coroutine.Stage Runtime.OverLibrary program guarded rt co s)
include h hco

/-- The names that the statement on top reads are variables or globals. -/
theorem operand_found {f : Frame} {fs : List Frame} (hc : co.control = .none) (hf : co.frames = f :: fs) {e : Expr}
    (he : e ∈ f.node.operands) {x : String} (hx : x ∈ e.names) : ∃ v, lookup rt.globals co.env x = some v := by
  obtain ⟨host, timeout, drivers, baseline, conditions, rfl⟩ := hco.runtime
  have hrule := (unreported_iff program .undefinedVariable).1 h
  obtain ⟨-, around, hover, -, hbound⟩ := hco.top_bound (by rw [hc]; rfl) hf
  rcases UndefinedVariable.names_known hrule hover.inside he x hx with hx | hx
  · refine lookup_variable (hbound x ?_)
    rw [Frame.names_point]
    exact List.mem_append_right _ hx
  · obtain ⟨v, hv⟩ := library_global hx timeout drivers
    exact lookup_global hv co.env

/-- The statement on top throws no error for want of a name. -/
theorem operand_throws {f : Frame} {fs : List Frame} (hc : co.control = .none) (hf : co.frames = f :: fs) {e : Expr}
    (he : e ∈ f.node.operands) : (e.eval rt co.env).Throws fun error => error.code? ≠ some "UNDEFINED_VARIABLE" := by
  refine eval_throws ?_ (fun _ => code_of_ordinary) fun x hx hl => ?_
  · obtain ⟨host, timeout, drivers, baseline, conditions, rfl⟩ := hco.runtime
    exact ofHost_throws (fun _ => code_of_ordinary) host _ baseline conditions
  · obtain ⟨v, hv⟩ := operand_found h hco hc hf he hx
    cases hv.symm.trans hl

/-- A step that fails for want of a name is an assignment to a name that is not a variable. -/
theorem step_misses {co' : Thread} {s' : Session σ} {e : Val} (hs : Coroutine.step rt co s = .next co' s')
    (he : co'.control = .throw e) (hcode : e.code? = some "UNDEFINED_VARIABLE") :
    ∃ f fs x path value span, co.control = .none ∧ co.frames = f :: fs ∧ f.node = .assign x path value span ∧
      x ∉ co.env.map Prod.fst ∧ e = (Mistake.undeclared x).toVal := by
  obtain ⟨f, fs, hc, hf, hraises⟩ := Coroutine.step_raises hs he
  have hmissed : e.code? = some "UNDEFINED_VARIABLE" → ∃ x path value span, f.node = .assign x path value span ∧
      x ∉ co.env.map Prod.fst ∧ e = (Mistake.undeclared x).toVal := by
    refine hraises (P := fun e => e.code? = some "UNDEFINED_VARIABLE" → ∃ x path value span,
      f.node = .assign x path value span ∧ x ∉ co.env.map Prod.fst ∧ e = (Mistake.undeclared x).toVal) ?_ ?_
    · intro operand hop s e t hthrown hcode
      exact absurd hcode (operand_throws h hco hc hf hop s e t hthrown)
    · intro x path value span ks v m hn hm hcode
      by_cases hx : x ∈ co.env.map Prod.fst
      · exact absurd hcode (code_of_ordinary (writeVariable_bound hx ks v hm))
      · rw [writeVariable_unbound hx] at hm
        cases hm
        exact ⟨x, path, value, span, hn, hx, rfl⟩
  obtain ⟨x, path, value, span, hn, hx, he⟩ := hmissed hcode
  exact ⟨f, fs, x, path, value, span, hc, hf, hn, hx, he⟩

/-- A name that is assigned and is not a variable is a global, and has not been declared. -/
theorem target_global {f : Frame} {fs : List Frame} (hc : co.control = .none) (hf : co.frames = f :: fs) {x : String}
    {path : List Segment} {value : Expr} {span : Span} (hn : f.node = .assign x path value span)
    (hx : x ∉ co.env.map Prod.fst) : x ∈ globalNames ∧ ∃ around, co.At program around ∧ x ∉ around.names := by
  have hrule := (unreported_iff program .undefinedVariable).1 h
  obtain ⟨-, around, hover, hplace, hbound⟩ := hco.top_bound (by rw [hc]; rfl) hf
  have hnew : x ∉ (f.point around).names := fun hm => hx (hbound x hm)
  refine ⟨(UndefinedVariable.target_known hrule hover.inside hn).resolve_left fun hm => hnew ?_, _, hplace, hnew⟩
  rw [Frame.names_point]
  exact List.mem_append_right _ hm

omit h in
/-- An assignment to a name that is not a variable fails once it has evaluated what it writes. -/
theorem target_missed {f : Frame} {fs : List Frame} (hc : co.control = .none) (hf : co.frames = f :: fs) {x : String}
    {path : List Segment} {value : Expr} {span : Span} (hn : f.node = .assign x path value span)
    (hx : x ∉ co.env.map Prod.fst) {v : Val} {ks : List Val} {t u : Scratch (Session σ)}
    (hv : value.eval rt co.env ⟨co.delivered, s⟩ = (.ok v, t)) (hks : Segment.evalAll rt co.env path t = (.ok ks, u)) :
    Coroutine.step rt co s =
      .next { co with delivered := u.delivered, control := .throw (Mistake.undeclared x).toVal } u.outside := by
  obtain ⟨hfits, -⟩ := hco.top_bound (by rw [hc]; rfl) hf
  have hk : f.kind = .assign := by
    rw [hfits.kind fun slot => by rw [hn]; cases slot <;> rfl, hn]
    rfl
  have hoperands : (do
      let v ← value.eval rt co.env
      let ks ← Segment.evalAll rt co.env path
      pure (v, ks) : Evaluation _ _) ⟨co.delivered, s⟩ = (.ok (v, ks), u) := by
    simp only [bind, Evaluation.andThen, hv, hks]
    rfl
  simp only [Coroutine.step, hc, hf, Coroutine.execute, hk, hn, Coroutine.evaluating, hoperands,
    writeVariable_unbound hx]

end

/-! ## Reading and assigning -/

theorem undefined_ne_undeclared (x y : String) : (Mistake.undefined x).toVal ≠ (Mistake.undeclared y).toVal := by
  intro h
  rw [Mistake.toVal, Mistake.toVal] at h
  injection h with _ hmessage
  have hfirst : ("undefined variable '" ++ x ++ "'").toList.head? =
      ("cannot assign to undeclared variable '" ++ y ++ "'").toList.head? :=
    congrArg (fun text => text.toList.head?) hmessage
  simp at hfirst

variable {σ : Type} {program : Stmt} {guarded : Bool} {rt : Runtime (Session σ)} {co : Thread} {s : Session σ}

/-- Wherever the resumes of a program in which no undefined variable is reported have got to: the names declared before
that place have variables, and those that the statement on top reads have values, so that no evaluation and no step
fails for want of one. -/
theorem names_found (h : ∀ p ∈ program.problems, p.rule ≠ Rule.undefinedVariable.id)
    (hco : Coroutine.Stage Runtime.OverLibrary program guarded rt co s) :
    (∃ around, co.At program around) ∧
    (∀ around, co.At program around → ∀ x ∈ around.names, ∃ v, (x, v) ∈ co.env) ∧
    (∀ f fs, co.control = .none → co.frames = f :: fs → ∀ e ∈ f.node.operands,
      (∀ x ∈ e.names, ∃ v, lookup rt.globals co.env x = some v) ∧
      (e.eval rt co.env).Throws fun error => error.code? ≠ some "UNDEFINED_VARIABLE") ∧
    ∀ co' s' x, Coroutine.step rt co s = .next co' s' → co'.control ≠ .throw (Mistake.undefined x).toVal := by
  obtain ⟨around, hplace, hbound⟩ := hco.at_bound
  refine ⟨⟨around, hplace⟩, ?_, ?_, ?_⟩
  · intro around' hplace' x hx
    rw [hplace'.names_eq hplace] at hx
    obtain ⟨⟨y, v⟩, hmem, rfl⟩ := List.mem_map.1 (hbound x hx)
    exact ⟨v, hmem⟩
  · intro f fs hc hf e he
    exact ⟨fun x hx => operand_found h hco hc hf he hx, operand_throws h hco hc hf he⟩
  · intro co' s' x hs he
    obtain ⟨_, _, y, _, _, _, _, _, _, _, hy⟩ := step_misses h hco hs he rfl
    exact undefined_ne_undeclared x y hy

/-- A handler that reads the error it handles and a variable that has been declared before. -/
def readingHandler : Stmt :=
  .expr (.call (.ident "a" .none) [.ident "e" .none] .none) .none

/-- A variable, and a `try` whose body fails. -/
def readingProgram : Stmt :=
  .block [.declare "a" (some (.bool true .none)) .none,
    .attempt (.expr (.call (.bool true .none) [] .none) .none) "e" readingHandler .none] .none

/-- The variables when the handler starts. -/
def readingEnv : List (String × Val) :=
  [("e", (Mistake.notCallable (Val.bool true).kind).toVal), ("a", .bool true)]

/-- Both names are found in the handler. -/
theorem reading_found : (∃ v, lookup quietRuntime.globals readingEnv "a" = some v) ∧
    ∃ v, lookup quietRuntime.globals readingEnv "e" = some v := by
  have hrule : ∀ p ∈ readingProgram.problems, p.rule ≠ Rule.undefinedVariable.id :=
    (unreported_iff readingProgram .undefinedVariable).2 rfl
  have hco : Coroutine.Stage Runtime.OverLibrary readingProgram true quietRuntime
      ⟨[⟨.expr, 2, readingHandler⟩,
        ⟨.attempt .handler, 1, .attempt (.expr (.call (.bool true .none) [] .none) .none) "e" readingHandler .none⟩,
        ⟨.block 2, 0, readingProgram⟩], readingEnv, .none, none, .running, true⟩ ⟨_, ()⟩ :=
    .next (.next (.next (.next (.next (.next
      (.begun .fresh quiet_overLibrary .null ⟨0, ()⟩) rfl) rfl) rfl) rfl) rfl) rfl
  have hfound := ((names_found hrule hco).2.2.1 _ _ rfl rfl _ List.mem_cons_self).1
  exact ⟨hfound "a" List.mem_cons_self, hfound "e" (List.mem_cons_of_mem _ List.mem_cons_self)⟩

/-- Only assignments of a program in which no undefined variable is reported fail for want of a name, and only those to
a global that has not been declared: the rule takes its name for declared, but it is not a variable to write.  All of
those fail, once they have evaluated what they write. -/
theorem only_globals_missed (h : ∀ p ∈ program.problems, p.rule ≠ Rule.undefinedVariable.id)
    (hco : Coroutine.Stage Runtime.OverLibrary program guarded rt co s) :
    (∀ co' s' e, Coroutine.step rt co s = .next co' s' → co'.control = .throw e →
      e.code? = some "UNDEFINED_VARIABLE" → ∃ f fs x path value span, co.control = .none ∧ co.frames = f :: fs ∧
        f.node = .assign x path value span ∧ (∀ v, (x, v) ∉ co.env) ∧ e = (Mistake.undeclared x).toVal) ∧
    ∀ f fs x path value span, co.control = .none → co.frames = f :: fs → f.node = .assign x path value span →
      (∀ v, (x, v) ∉ co.env) → (x ∈ globalNames ∧ ∃ around, co.At program around ∧ x ∉ around.names) ∧
      ∀ v ks t u, value.eval rt co.env ⟨co.delivered, s⟩ = (.ok v, t) →
        Segment.evalAll rt co.env path t = (.ok ks, u) → Coroutine.step rt co s =
          .next { co with delivered := u.delivered, control := .throw (Mistake.undeclared x).toVal } u.outside := by
  constructor
  · intro co' s' e hs he hcode
    obtain ⟨f, fs, x, path, value, span, hc, hf, hn, hx, he⟩ := step_misses h hco hs he hcode
    exact ⟨f, fs, x, path, value, span, hc, hf, hn, not_mem_names.1 hx, he⟩
  · intro f fs x path value span hc hf hn hx
    have hx := not_mem_names.2 hx
    exact ⟨target_global h hco hc hf hn hx, fun v ks t u hv hks => target_missed hco hc hf hn hx hv hks⟩

/-- An assignment to a global. -/
def assigningProgram : Stmt :=
  .assign "print" [] (.bool true .none) .none

/-- It passes the rule and fails. -/
theorem assigning_missed : assigningProgram.problems = [] ∧ "print" ∈ globalNames ∧
    Coroutine.step quietRuntime ⟨[⟨.assign, 0, assigningProgram⟩], [], .none, none, .running, true⟩ ⟨0, ()⟩ =
      .next ⟨[⟨.assign, 0, assigningProgram⟩], [], .throw (Mistake.undeclared "print").toVal, none, .running, true⟩
        ⟨0, ()⟩ := by
  have hchecked : Rule.all.flatMap (Rule.check assigningProgram) = [] := rfl
  have hproblems : assigningProgram.problems = [] := by rw [Stmt.problems, hchecked, List.mergeSort_nil]
  have hrule : ∀ p ∈ assigningProgram.problems, p.rule ≠ Rule.undefinedVariable.id :=
    (unreported_iff assigningProgram .undefinedVariable).2 rfl
  have hco : Coroutine.Stage Runtime.OverLibrary assigningProgram true quietRuntime
      ⟨[⟨.assign, 0, assigningProgram⟩], [], .none, none, .running, true⟩ ⟨0, ()⟩ :=
    .begun .fresh quiet_overLibrary .null ⟨0, ()⟩
  have hmissed := (only_globals_missed hrule hco).2 _ _ _ _ _ _ rfl rfl rfl fun _ => List.not_mem_nil
  exact ⟨hproblems, hmissed.1.1, hmissed.2 _ _ _ _ rfl rfl⟩

end VirtualComputer
