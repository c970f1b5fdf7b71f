import VirtualComputer.Proofs.Guest.Cells
import VirtualComputer.Proofs.Guest.Raising

/-!
# What assignments write

An assignment that is carried out writes its path into the innermost variable of its name, and nothing else
(`assignment_writes`).  One that fails has left all variables as they were, unless its path goes on behind a cell that
was missing: that cell has been filled with null by then (`failed_assignment_fills`).
-/

namespace VirtualComputer

/-! ## The innermost variable -/

/-- The same variables, but for the value of the innermost one of a name. -/
def Rebinds (x : String) (old new : Val) (env env' : List (String × Val)) : Prop :=
  ∃ inner outer, x ∉ inner.map Prod.fst ∧ env = inner ++ (x, old) :: outer ∧ env' = inner ++ (x, new) :: outer

section Rebinds

variable {x : String} {old new : Val} {env env' : List (String × Val)}

theorem Rebinds.ordered (h : Rebinds x old new env env') (ho : Val.OrderedEntries env) : old.Ordered := by
  obtain ⟨inner, outer, -, rfl, -⟩ := h
  exact Val.orderedEntries_iff.1 ho _ (List.mem_append_right _ List.mem_cons_self)

theorem Rebinds.eq_iff (h : Rebinds x old new env env') : env' = env ↔ new = old := by
  obtain ⟨inner, outer, -, rfl, rfl⟩ := h
  simp

theorem rebinds_of_mem (h : x ∈ env.map Prod.fst) : ∃ old, ∀ new, ∃ env', Rebinds x old new env env' := by
  obtain ⟨names, names', hnames, hx⟩ := List.eq_append_cons_of_mem h
  obtain ⟨inner, rest, rfl, rfl, hrest⟩ := List.map_eq_append_iff.1 hnames
  obtain ⟨⟨y, old⟩, outer, rfl, rfl, rfl⟩ := List.map_eq_cons_iff.1 hrest
  exact ⟨old, fun new => ⟨_, inner, outer, hx, rfl, rfl⟩⟩

/-- A write to a name is one inside its innermost variable. -/
theorem Rebinds.writeVariable {ks : List Val} {v : Val} {m : Option Mistake} (h : Rebinds x old new env env')
    (hw : v.write ks old = (new, m)) : writeVariable x ks v env = (env', m) := by
  obtain ⟨inner, outer, hx, rfl, rfl⟩ := h
  induction inner with
  | nil =>
    rw [List.nil_append, VirtualComputer.writeVariable, if_pos rfl, hw]
    rfl
  | cons b inner ih =>
    obtain ⟨hne, hx⟩ := not_or.1 (fun h => hx (List.mem_cons.2 h))
    rw [List.cons_append, VirtualComputer.writeVariable, if_neg (Ne.symm hne), ih hx]
    rfl

end Rebinds

/-- A write misses its variable, or is one inside the innermost variable of the name. -/
theorem writeVariable_cases (x : String) (ks : List Val) (v : Val) (env : List (String × Val)) :
    writeVariable x ks v env = (env, some (.undeclared x)) ∨
      ∃ old new env' m, v.write ks old = (new, m) ∧ Rebinds x old new env env' ∧
        writeVariable x ks v env = (env', m) := by
  by_cases hx : x ∈ env.map Prod.fst
  · obtain ⟨old, hold⟩ := rebinds_of_mem hx
    obtain ⟨env', h⟩ := hold (v.write ks old).1
    exact .inr ⟨old, _, env', _, rfl, h, h.writeVariable rfl⟩
  · exact .inl (writeVariable_unbound hx ks v)

/-! ## Steps -/

/-- The coroutine is about to do an assignment. -/
structure Coroutine.Assigning (co : Thread) (fs : List Frame) (x : String) (path : List Segment) (value : Expr) :
    Prop where
  control : co.control = .none
  top : ∃ f span, co.frames = f :: fs ∧ f.kind = .assign ∧ f.node = .assign x path value span

/-- What the assignment is to write: the value and the keys of its path, as they evaluate. -/
def Coroutine.Operands {τ : Type} (rt : Runtime τ) (co : Thread) (s : τ) (value : Expr) (path : List Segment) (v : Val)
    (ks : List Val) (u : Scratch τ) : Prop :=
  ∃ t, value.eval rt co.env ⟨co.delivered, s⟩ = (.ok v, t) ∧ Segment.evalAll rt co.env path t = (.ok ks, u)

section Steps

variable {τ : Type} {rt : Runtime τ} {co co' : Thread} {s s' : τ} {fs : List Frame} {x : String} {path : List Segment}
  {value : Expr} {v : Val} {ks : List Val} {u : Scratch τ} {env : List (String × Val)}

/-- The evaluation of what is to be written. -/
abbrev operands (rt : Runtime τ) (env : List (String × Val)) (value : Expr) (path : List Segment) :
    Evaluation τ (Val × List Val) := do
  let v ← value.eval rt env
  let ks ← Segment.evalAll rt env path
  pure (v, ks)

theorem operands_iff :
    operands rt co.env value path ⟨co.delivered, s⟩ = (.ok (v, ks), u) ↔ co.Operands rt s value path v ks u := by
  simp only [operands, Coroutine.Operands, andThen_ok]
  constructor
  · rintro ⟨w, t, hv, js, u', hks, h⟩
    cases h
    exact ⟨t, hv, hks⟩
  · rintro ⟨t, hv, hks⟩
    exact ⟨v, t, hv, ks, u, hks, rfl⟩

namespace Coroutine

/-- The step evaluates the operands and then writes. -/
theorem step_assigning (h : co.Assigning fs x path value) (s : τ) :
    step rt co s = evaluating co s (operands rt co.env value path) fun (v, ks) c s =>
      match writeVariable x ks v c.env with
      | (env, some m) => .next { c with env, control := .throw m.toVal } s
      | (env, none) => measured rt { c with env, frames := fs } s := by
  obtain ⟨hc, ⟨kind, base, node⟩, span, hf, hk, hn⟩ := h
  cases hk
  cases hn
  rw [step, hc, hf]
  rfl

/-- A write that fails has its mistake thrown, with the variables as it leaves them. -/
theorem step_assigning_failed (h : co.Assigning fs x path value) (ho : co.Operands rt s value path v ks u)
    {m : Mistake} (hw : writeVariable x ks v co.env = (env, some m)) : step rt co s =
      .next { co with delivered := u.delivered, env, control := .throw m.toVal } u.outside := by
  rw [step_assigning h, evaluating, operands_iff.2 ho]
  dsimp only
  rw [hw]

/-- What the step of an assignment can come to. -/
inductive Assigns (rt : Runtime τ) (co : Thread) (s : τ) (fs : List Frame) (x : String) (path : List Segment)
    (value : Expr) : StepResult τ → Prop
  /-- An operand hands a value out. -/
  | suspends (d : Option Val) (w : Val) (t : τ) :
      Assigns rt co s fs x path value (.done { co with delivered := d, control := .suspend w } t)
  /-- An operand throws an error. -/
  | throws (d : Option Val) (e : Val) (t : τ) :
      Assigns rt co s fs x path value (.next { co with delivered := d, control := .throw e } t)
  /-- The write fails. -/
  | fails {v : Val} {ks : List Val} {u : Scratch τ} {env : List (String × Val)} {m : Mistake}
      (ho : co.Operands rt s value path v ks u) (hw : writeVariable x ks v co.env = (env, some m)) :
      Assigns rt co s fs x path value
        (.next { co with delivered := u.delivered, env, control := .throw m.toVal } u.outside)
  /-- The write succeeds. -/
  | writes {v : Val} {ks : List Val} {u : Scratch τ} {env : List (String × Val)}
      (ho : co.Operands rt s value path v ks u) (hw : writeVariable x ks v co.env = (env, none)) (t : τ) :
      Assigns rt co s fs x path value (.next { co with delivered := u.delivered, env, frames := fs } t)
  /-- The write succeeds, but memory does not allow what it makes. -/
  | exceeds {v : Val} {ks : List Val} {u : Scratch τ} {env : List (String × Val)}
      (ho : co.Operands rt s value path v ks u) (hw : writeVariable x ks v co.env = (env, none)) (t : τ) :
      Assigns rt co s fs x path value
        (.fault .allocationLimit { co with delivered := u.delivered, env, frames := fs } t)

theorem step_assigns (rt : Runtime τ) (h : co.Assigning fs x path value) (s : τ) :
    Assigns rt co s fs x path value (step rt co s) := by
  rcases hops : operands rt co.env value path ⟨co.delivered, s⟩ with ⟨(w | e) | ⟨v, ks⟩, u⟩
  · rw [step_assigning h, evaluating, hops]
    exact .suspends _ _ _
  · rw [step_assigning h, evaluating, hops]
    exact .throws _ _ _
  · have ho := operands_iff.1 hops
    rcases hw : writeVariable x ks v co.env with ⟨env, _ | m⟩
    · rw [step_assigning h, evaluating, hops]
      dsimp only
      rw [hw]
      obtain ⟨t, ht⟩ := measured_cases rt { co with delivered := u.delivered, env, frames := fs } u.outside
      dsimp only
      rcases ht with ⟨-, ht⟩ | ⟨-, ht⟩
      · rw [ht]
        exact .writes ho hw t
      · rw [ht]
        exact .exceeds ho hw t
    · rw [step_assigning_failed h ho hw]
      exact .fails ho hw

end Coroutine

/-! ## Reading along a path -/

/-- The expression that reads a path. -/
def Expr.along (e : Expr) : List Segment → Expr
  | [] => e
  | .property x span :: path => (Expr.member e x span).along path
  | .key k span :: path => (Expr.index e k span).along path

/-- Its value is what the keys of the path read. -/
theorem eval_along {e : Expr} {c w : Val} {t t' : Scratch τ} (he : e.eval rt env t = (.ok c, t'))
    (hks : Segment.evalAll rt env path t' = (.ok ks, u)) (hw : c.read ks = .ok w) :
    (e.along path).eval rt env t = (.ok w, u) := by
  induction path generalizing e c ks t' with
  | nil =>
    cases hks
    cases hw
    exact he
  | cons segment path ih =>
    cases segment with
    | property x span =>
      obtain ⟨js, u', hjs, h⟩ := andThen_ok.1 hks
      cases h
      obtain ⟨c', hc, hw⟩ := Val.read_cons hw
      refine ih (andThen_ok.2 ⟨c, t', he, ?_⟩) hjs hw
      rw [hc]
      rfl
    | key k span =>
      obtain ⟨key, t'', hk, hrest⟩ := andThen_ok.1 hks
      obtain ⟨js, u', hjs, h⟩ := andThen_ok.1 hrest
      cases h
      obtain ⟨c', hc, hw⟩ := Val.read_cons hw
      refine ih (andThen_ok.2 ⟨c, t', he, andThen_ok.2 ⟨key, t'', hk, ?_⟩⟩) hjs hw
      rw [hc]
      rfl

/-! ## Assignments that are carried out -/

/-- A path has been written inside the innermost variable of a name. -/
def Overwrites (x : String) (ks : List Val) (v : Val) (env env' : List (String × Val)) : Prop :=
  ∃ old new, v.write ks old = (new, none) ∧ Rebinds x old new env env' ∧ Val.Written ks v old new

theorem overwrites_of_writeVariable {env' : List (String × Val)} (h : writeVariable x ks v env = (env', none)) :
    Overwrites x ks v env env' := by
  rcases writeVariable_cases x ks v env with hmissed | ⟨old, new, env'', m, hwrite, hrebinds, hinside⟩
  · cases hmissed.symm.trans h
  · cases hinside.symm.trans h
    exact ⟨old, new, hwrite, hrebinds, Val.write_written hwrite⟩

/-- A write that succeeds is found where it was made, inside the innermost variable of the name, and changes nothing
else, as expressions read paths; it does succeed if there is a container that takes the last key.  The assignments that
are carried out are such writes, of their operands as these evaluate. -/
theorem assignment_writes (rt : Runtime τ) :
    (∀ (v : Val) ks old new, v.write ks old = (new, none) → Val.Written ks v old new) ∧
    (∀ (v : Val) ks k old, (∃ new, v.write (ks ++ [k]) old = (new, none)) ↔
      ∃ c p, old.find? ks = some c ∧ c.Takes k p) ∧
    (∀ x ks v env env', writeVariable x ks v env = (env', none) → Overwrites x ks v env env') ∧
    (∀ env (e : Expr) path (c : Val) ks w (t t' u : Scratch τ), e.eval rt env t = (.ok c, t') →
      Segment.evalAll rt env path t' = (.ok ks, u) → c.read ks = .ok w → (e.along path).eval rt env t = (.ok w, u)) ∧
    ∀ (co co' : Thread) (s s' : τ) fs x path value, co.Assigning fs x path value →
      Coroutine.step rt co s = .next co' s' → co'.control = .none → co'.frames = fs ∧
        ∃ v ks u, co.Operands rt s value path v ks u ∧ Overwrites x ks v co.env co'.env := by
  refine ⟨fun v ks old new h => Val.write_written h, fun v ks k old => Val.write_succeeds,
    fun x ks v env env' h => overwrites_of_writeVariable h,
    fun env e path c ks w t t' u he hks hw => eval_along he hks hw, fun co co' s s' fs x path value h hs hc => ?_⟩
  have hassigns := Coroutine.step_assigns rt h s
  rw [hs] at hassigns
  cases hassigns with
  | throws _ _ _ => cases hc
  | fails _ _ => cases hc
  | writes hops hw _ => exact ⟨rfl, _, _, _, hops, overwrites_of_writeVariable hw⟩

/-- An assignment to a property of a property. -/
def nestedAssignment : Stmt :=
  .assign "x" [.property "a" .none, .property "b" .none] (.bool true .none) .none

/-- The property is written in the innermost variable of the name. -/
theorem nested_overwritten : Overwrites "x" [.str "a", .str "b"] (.bool true)
    [("x", .obj [("a", .obj [])]), ("x", .null)] [("x", .obj [("a", .obj [("b", .bool true)])]), ("x", .null)] := by
  have hs : Coroutine.step (.ofHost silentHost [] 0 ⟨none, false⟩)
      ⟨[⟨.assign, 2, nestedAssignment⟩], [("x", .obj [("a", .obj [])]), ("x", .null)], .none, none, .running, true⟩
      ⟨0, ()⟩ =
    .next ⟨[], [("x", .obj [("a", .obj [("b", .bool true)])]), ("x", .null)], .none, none, .running, true⟩
      ⟨_, ()⟩ := rfl
  obtain ⟨-, v, ks, u, ⟨t, hv, hks⟩, hover⟩ :=
    (assignment_writes _).2.2.2.2 _ _ _ _ _ _ _ _ ⟨rfl, _, _, rfl, rfl, rfl⟩ hs rfl
  cases hv
  cases hks
  exact hover

/-! ## Assignments that fail -/

/-- The path of a write goes on behind a cell that is missing in the innermost variable of the name, which leaves null
in that cell. -/
def Overreaches (x : String) (ks : List Val) (e : Val) (env env' : List (String × Val)) : Prop :=
  ∃ old new pre k rest, ks = pre ++ k :: rest ∧ old.find? pre = none ∧ Val.write .null pre old = (new, none) ∧
    Rebinds x old new env env' ∧ e = (Mistake.noAccess .null k.kind).toVal

theorem Overreaches.writeVariable {e : Val} {env env' : List (String × Val)} (h : Overreaches x ks e env env')
    (v : Val) : ∃ m : Mistake, writeVariable x ks v env = (env', some m) ∧ m.toVal = e := by
  obtain ⟨old, new, pre, k, rest, rfl, hpre, hnew, hrebinds, rfl⟩ := h
  exact ⟨_, hrebinds.writeVariable (Val.write_filled hpre hnew v rest), rfl⟩

theorem Overreaches.ne {e : Val} {env env' : List (String × Val)} (h : Overreaches x ks e env env') : env' ≠ env := by
  obtain ⟨old, new, pre, k, rest, -, hpre, hnew, hrebinds, -⟩ := h
  exact fun henv => Val.ne_of_filled hpre hnew (hrebinds.eq_iff.1 henv)

/-- A write that fails leaves the variables as they are unless it overreaches. -/
theorem writeVariable_failed {env env' : List (String × Val)} {m : Mistake} (ho : Val.OrderedEntries env)
    (h : writeVariable x ks v env = (env', some m)) : env' = env ∨ Overreaches x ks m.toVal env env' := by
  rcases writeVariable_cases x ks v env with hw | ⟨old, new, env'', m', hwrite, hrebinds, hw⟩
  · cases hw.symm.trans h
    exact .inl rfl
  · cases hw.symm.trans h
    cases Val.write_stopped (hrebinds.ordered ho) hwrite with
    | kept _ _ _ _ => exact .inl (hrebinds.eq_iff.2 rfl)
    | filled _ hkeys hpre hnew => exact .inr ⟨_, _, _, _, _, hkeys, hpre, hnew, hrebinds, rfl⟩

/-- An assignment that hands a value out or fails leaves all variables as they are, unless it has evaluated its operands
and its path goes on behind a missing cell: it fails then, and leaves null in that cell. -/
theorem failed_assignment_fills (rt : Runtime τ) (h : co.Assigning fs x path value) (ho : Val.OrderedEntries co.env)
    (s : τ) :
    (∀ co' s', Coroutine.step rt co s = .done co' s' → co'.env = co.env) ∧
    (∀ co' s' e, Coroutine.step rt co s = .next co' s' → co'.control = .throw e →
      (co'.env ≠ co.env ↔ ∃ v ks u, co.Operands rt s value path v ks u ∧ Overreaches x ks e co.env co'.env)) ∧
    ∀ v ks u e env, co.Operands rt s value path v ks u → Overreaches x ks e co.env env → Coroutine.step rt co s =
      .next { co with delivered := u.delivered, env, control := .throw e } u.outside := by
  have hassigns := Coroutine.step_assigns rt h s
  refine ⟨fun co' s' hs => ?_, fun co' s' e hs he => ⟨fun hne => ?_, ?_⟩, fun v ks u e env hops hover => ?_⟩
  · rw [hs] at hassigns
    cases hassigns with
    | suspends _ _ _ => rfl
  · rw [hs] at hassigns
    cases hassigns with
    | throws _ _ _ => exact absurd rfl hne
    | @fails v ks u env m hops hw =>
      cases he
      exact ⟨v, ks, u, hops, (writeVariable_failed ho hw).resolve_left hne⟩
    | writes _ _ _ => cases h.control.symm.trans he
  · rintro ⟨v, ks, u, -, hover⟩
    exact hover.ne
  · obtain ⟨m, hw, rfl⟩ := hover.writeVariable v
    exact Coroutine.step_assigning_failed h hops hw

/-- The assignment fails if there is no such property, and leaves null in its place. -/
theorem nested_filled : Val.OrderedEntries [("x", .obj [])] ∧ Coroutine.step (.ofHost silentHost [] 0 ⟨none, false⟩)
      ⟨[⟨.assign, 1, nestedAssignment⟩], [("x", .obj [])], .none, none, .running, true⟩ ⟨0, ()⟩ =
    .next ⟨[⟨.assign, 1, nestedAssignment⟩], [("x", .obj [("a", .null)])],
      .throw (Mistake.noAccess .null .string).toVal, none, .running, true⟩ ⟨0, ()⟩ := by
  have ho : Val.OrderedEntries [("x", .obj [])] := ⟨⟨List.Pairwise.nil, trivial⟩, trivial⟩
  have hover : Overreaches "x" [.str "a", .str "b"] (Mistake.noAccess .null .string).toVal [("x", .obj [])]
      [("x", .obj [("a", .null)])] :=
    ⟨.obj [], .obj [("a", .null)], [.str "a"], .str "b", [], rfl, rfl, rfl, ⟨[], [], List.not_mem_nil, rfl, rfl⟩, rfl⟩
  exact ⟨ho, (failed_assignment_fills (.ofHost silentHost [] 0 ⟨none, false⟩) ⟨rfl, _, _, rfl, rfl, rfl⟩ ho ⟨0, ()⟩).2.2
    (.bool true) [.str "a", .str "b"] ⟨none, ⟨0, ()⟩⟩ _ _ ⟨_, rfl, rfl⟩ hover⟩

end Steps

end VirtualComputer
