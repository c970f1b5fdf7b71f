import VirtualComputer.Guest.Library
import VirtualComputer.Proofs.Guest.Evaluations
import VirtualComputer.Proofs.Guest.Frames

/-!
# Where errors come from

Natives make ordinary mistakes only (`ofHost_throws`), which are not about names or loop control.  A step that leaves an
error pending has it from an operand of its statement or from the write of an assignment (`execute_raises`), which
misses a variable (`writeVariable_unbound`) or has a path that fits nothing (`writeVariable_bound`).
-/

namespace VirtualComputer

/-- The code of an error. -/
def Val.code? : Val → Option String
  | .error code _ => some code
  | _ => none

theorem code_toVal (m : Mistake) : m.toVal.code? = some m.code := rfl

/-- The code of unknown names is that of mistakes about names alone. -/
theorem code_of_ordinary {m : Mistake} (h : m.isOrdinary) : m.toVal.code? ≠ some "UNDEFINED_VARIABLE" := by
  rw [code_toVal]
  cases m with
  | undefined _ | undeclared _ => cases h
  | _ => simp [Mistake.code]

/-- The code of stray loop control is that of no other mistake. -/
theorem code_of_ne_stray {m : Mistake} (h : m ≠ .strayControl) : m.toVal.code? ≠ some "BAD_CONTROL" := by
  rw [code_toVal]
  cases m with
  | strayControl => exact absurd rfl h
  | _ => simp [Mistake.code]

/-- Loop control is not the matter of an ordinary mistake. -/
theorem ne_stray_of_ordinary {m : Mistake} (h : m.isOrdinary) : m ≠ .strayControl := by
  rintro rfl
  cases h

/-! ## Natives -/

/-- If there is a mistake it is an ordinary one. -/
def Fails {α : Type} (r : Except Mistake α) : Prop :=
  ∀ m, r = .error m → m.isOrdinary

section

variable {α β : Type}

theorem Fails.ok (a : α) : Fails (.ok a) := nofun

theorem Fails.error {m : Mistake} (h : m.isOrdinary) : Fails (.error m : Except Mistake α) := by
  rintro _ ⟨⟩
  exact h

theorem Fails.bind {r : Except Mistake α} {f : α → Except Mistake β} (h : Fails r) (hf : ∀ a, Fails (f a)) :
    Fails (r >>= f) := by
  cases r with
  | error m => exact .error (h m rfl)
  | ok a => exact hf a

end

namespace Native

variable (n : Native) (args : List Val)

theorem arg1_fails : Fails (n.arg1 args) := by
  unfold arg1
  split
  · exact .ok _
  · exact .error rfl

theorem arg2_fails : Fails (n.arg2 args) := by
  unfold arg2
  split
  · exact .ok _
  · exact .error rfl

theorem stringArg_fails (place : ℕ) : Fails (n.stringArg args place) := by
  unfold stringArg
  split
  · exact .ok _
  · exact .error rfl
  · exact .error rfl

theorem sum_fails : Fails (sum args) := by
  refine (arg2_fails _ _).bind fun p => ?_
  split
  · exact .ok _
  · exact .ok _
  · exact .ok _
  · exact .ok _
  · exact .error rfl
  · exact .error rfl

theorem arithmetic_fails {f : Float → Float → Except Mistake Float} (hf : ∀ x y, Fails (f x y)) :
    Fails (n.arithmetic args f) := by
  refine (arg2_fails _ _).bind fun p => ?_
  split
  · exact (hf _ _).bind fun x => .ok _
  · exact .error rfl
  · exact .error rfl

theorem comparison_fails (f : Float → Float → Bool) (g : String → String → Bool) : Fails (n.comparison args f g) := by
  refine (arg2_fails _ _).bind fun p => ?_
  split
  · exact .ok _
  · exact .ok _
  · exact .error rfl

theorem deferred_fails : Fails (deferred args) := by
  unfold deferred
  split
  · exact .ok _
  · exact .ok _
  · exact .error rfl
  · exact .error rfl

/-- A native that needs no host makes ordinary mistakes only. -/
theorem apply_fails : Fails (n.apply args) := by
  cases n with
  | add => exact sum_fails args
  | sub => exact arithmetic_fails _ args fun _ _ => .ok _
  | mul => exact arithmetic_fails _ args fun _ _ => .ok _
  | div =>
    refine arithmetic_fails _ args fun _ _ => ?_
    split
    · exact .error rfl
    · exact .ok _
  | mod =>
    refine arithmetic_fails _ args fun _ _ => ?_
    split
    · exact .error rfl
    · exact .ok _
  | eq => exact (arg2_fails _ _).bind fun _ => .ok _
  | ne => exact (arg2_fails _ _).bind fun _ => .ok _
  | lt => exact comparison_fails _ args _ _
  | lte => exact comparison_fails _ args _ _
  | gt => exact comparison_fails _ args _ _
  | gte => exact comparison_fails _ args _ _
  | not => exact (arg1_fails _ _).bind fun _ => .ok _
  | neg =>
    refine (arg1_fails _ _).bind fun v => ?_
    split
    · exact .ok _
    · exact .error rfl
  | len =>
    refine (arg1_fails _ _).bind fun v => ?_
    split
    · exact .ok _
    · exact .ok _
    · exact .ok _
    · exact .error rfl
  | str => exact (arg1_fails _ _).bind fun _ => .ok _
  | type => exact (arg1_fails _ _).bind fun _ => .ok _
  | push =>
    refine (arg2_fails _ _).bind fun p => ?_
    split
    · exact .ok _
    · exact .error rfl
  | error => exact .error rfl
  | defer => exact deferred_fails args
  | invoke => exact (stringArg_fails _ _ _).bind fun _ => (stringArg_fails _ _ _).bind fun _ => .ok _
  | persist => exact (arg1_fails _ _).bind fun _ => .ok _
  | unpersist =>
    refine (stringArg_fails _ _ _).bind fun text => ?_
    split
    · exact .ok _
    · exact .error rfl
  | _ => exact .error rfl

theorem payload_fails : Fails (payload args) := by
  unfold payload
  induction args with
  | nil => exact .ok _
  | cons v args ih =>
    rw [List.mapM_cons]
    refine Fails.bind ?_ fun _ => ih.bind fun _ => .ok _
    split
    · exact .ok _
    · exact .error rfl

theorem message_fails : Fails (message args) :=
  (stringArg_fails _ _ _).bind fun _ => (stringArg_fails _ _ _).bind fun _ => (payload_fails _).bind fun _ => .ok _

theorem settle_throws {σ : Type} {P : Val → Prop} (hP : ∀ m : Mistake, m.isOrdinary → P m.toVal)
    {r : Except Mistake Val} (h : Fails r) (s : Session σ) {e : Val} (he : (settle r s).1 = .error e) : P e := by
  cases r with
  | ok v => cases he
  | error m =>
    cases he
    exact hP m (h m rfl)

/-- So does any other native. -/
theorem call_throws {σ : Type} {P : Val → Prop} (hP : ∀ m : Mistake, m.isOrdinary → P m.toVal) (host : Host σ)
    (c : Conditions) (s : Session σ) {e : Val} (he : (n.call host c args s).1 = .error e) : P e := by
  unfold call at he
  split at he
  · cases he
    exact hP _ rfl
  split at he
  · cases he
  · cases he
  · cases he
  · cases he
  · cases he
  · cases he
  · cases he
  · cases he
  · exact settle_throws hP ((stringArg_fails _ _ _).bind fun _ => .ok _) s he
  · split at he
    · next hm =>
      cases he
      exact hP _ (message_fails args _ hm)
    · cases he
  · exact settle_throws hP (apply_fails _ args) s he

end Native

/-- With a host, natives throw no errors but those of ordinary mistakes. -/
theorem ofHost_throws {σ : Type} {P : Val → Prop} (hP : ∀ m : Mistake, m.isOrdinary → P m.toVal) (host : Host σ)
    (globals : Entries Val) (baseline : ℕ) (conditions : Conditions) :
    (Runtime.ofHost host globals baseline conditions).Throws P := by
  intro n args s e t h
  exact Native.call_throws n args hP host conditions s (congrArg Prod.fst h)

/-! ## Writes -/

/-- What goes wrong with a write inside a value is its path. -/
theorem write_mistake (value : Val) (keys : List Val) (target : Val) {m : Mistake}
    (h : (value.write keys target).2 = some m) : m.isOrdinary := by
  induction keys generalizing target with
  | nil => cases h
  | cons k keys ih =>
    unfold Val.write at h
    split at h
    · next hk => cases hk
    · next hk =>
      cases hk
      exact ih _ h
    · next hk =>
      cases hk
      dsimp only at h
      split at h
      · cases h
        rfl
      · exact ih _ h
    · cases h
      rfl

/-- A write misses a variable that is not there. -/
theorem writeVariable_unbound {x : String} {env : List (String × Val)} (h : x ∉ env.map Prod.fst) (keys : List Val)
    (value : Val) : writeVariable x keys value env = (env, some (.undeclared x)) := by
  induction env with
  | nil => rfl
  | cons b env ih =>
    obtain ⟨y, v⟩ := b
    rw [List.map_cons, List.mem_cons, not_or] at h
    rw [writeVariable, if_neg (Ne.symm h.1), ih h.2]

/-- A write finds a variable that is there; the path may not fit what is in it. -/
theorem writeVariable_bound {x : String} {env : List (String × Val)} (h : x ∈ env.map Prod.fst) (keys : List Val)
    (value : Val) {m : Mistake} (hm : (writeVariable x keys value env).2 = some m) : m.isOrdinary := by
  induction env with
  | nil => cases h
  | cons b env ih =>
    obtain ⟨y, v⟩ := b
    rw [writeVariable] at hm
    split at hm
    · exact write_mistake value keys v hm
    · next hne =>
      rcases List.mem_cons.1 h with hx | hx
      · exact absurd hx.symm hne
      · exact ih hx hm

/-! ## Steps -/

namespace Coroutine

variable {τ α : Type} {P : Val → Prop} {rt : Runtime τ} {f : Frame} {co : Thread}

/-- If an error is pending it has a property. -/
def Raises (P : Val → Prop) (co : Thread) : Prop :=
  ∀ e, co.control = .throw e → P e

theorem raises_of_none (h : co.control = .none) : co.Raises P := by
  intro e he
  cases h.symm.trans he

theorem evaluating_raises {s : τ} {m : Evaluation τ α} {k : α → Thread → τ → StepResult τ} (hm : m.Throws P)
    (hk : ∀ a d t, (k a { co with delivered := d } t).Leads (Raises P)) : (evaluating co s m k).Leads (Raises P) := by
  unfold evaluating
  rcases hr : m ⟨co.delivered, s⟩ with ⟨(v | e) | a, t⟩
  · exact nofun
  · rintro _ ⟨⟩
    exact hm _ e t hr
  · exact hk a _ _

theorem option_throws {env : List (String × Val)} {o : Option Expr} (h : ∀ e ∈ o.toList, (e.eval rt env).Throws P) :
    (Expr.evalOption rt env o).Throws P := by
  cases o with
  | none => exact give_throws _
  | some e => exact h e (List.mem_singleton.2 rfl)

theorem segments_throw {env : List (String × Val)} {path : List Segment}
    (h : ∀ e ∈ path.filterMap Segment.key?, (e.eval rt env).Throws P) : (Segment.evalAll rt env path).Throws P := by
  induction path with
  | nil => exact give_throws _
  | cons p path ih =>
    cases p with
    | property x span => exact andThen_throws (ih h) fun _ => give_throws _
    | key e span =>
      obtain ⟨he, hpath⟩ := List.forall_mem_cons.1 h
      exact andThen_throws he fun _ => andThen_throws (ih hpath) fun _ => give_throws _

/-- The error that a step of the topmost frame leaves pending is one that an operand of the statement throws, or the
mistake of a write. -/
theorem execute_raises (fs : List Frame) (hc : co.control = .none)
    (hops : ∀ e ∈ f.node.operands, (e.eval rt co.env).Throws P)
    (hwrite : ∀ {x path value span ks v m}, f.node = .assign x path value span →
      (writeVariable x ks v co.env).2 = some m → P m.toVal) (s : τ) :
    (execute rt f fs co s).Leads (Raises P) := by
  unfold execute
  split
  · split <;> exact raises_of_none hc
  · next x init span _ hn =>
    rw [hn] at hops
    refine evaluating_raises (option_throws hops) fun v d t => measured_leads rt ?_ t
    exact raises_of_none hc
  · next x path value span _ hn =>
    rw [hn] at hops
    obtain ⟨hvalue, hpath⟩ := List.forall_mem_cons.1 hops
    have hoperands (v : Val) : Evaluation.Throws P (do let ks ← Segment.evalAll rt co.env path; pure (v, ks)) :=
      andThen_throws (segments_throw hpath) fun _ => give_throws _
    refine evaluating_raises (andThen_throws hvalue hoperands) fun ⟨v, ks⟩ d t => ?_
    dsimp only
    split
    · next env m hw =>
      rintro _ ⟨⟩
      exact hwrite hn (congrArg Prod.snd hw)
    · refine measured_leads rt ?_ t
      exact raises_of_none hc
  · next test yes no span _ hn =>
    rw [hn] at hops
    refine evaluating_raises (hops test (List.mem_singleton.2 rfl)) fun v d t => ?_
    dsimp only
    split
    · exact raises_of_none hc
    · split <;> exact raises_of_none hc
  · next test body span _ hn =>
    rw [hn] at hops
    refine evaluating_raises (hops test (List.mem_singleton.2 rfl)) fun v d t => ?_
    split <;> exact raises_of_none hc
  · next value span _ hn =>
    rw [hn] at hops
    exact evaluating_raises (option_throws hops) fun v d t => nofun
  · exact raises_of_none hc
  · exact raises_of_none hc
  · next e span _ hn =>
    rw [hn] at hops
    exact evaluating_raises (hops e (List.mem_singleton.2 rfl)) fun v d t => raises_of_none hc
  · exact nofun
  · exact nofun
  · trivial

/-- Any step that leaves an error pending is such a step of the topmost frame. -/
theorem step_raises {co' : Thread} {s s' : τ} (hs : step rt co s = .next co' s') {e : Val}
    (he : co'.control = .throw e) : ∃ f fs, co.control = .none ∧ co.frames = f :: fs ∧ ∀ {P : Val → Prop},
      (∀ e ∈ f.node.operands, (e.eval rt co.env).Throws P) →
      (∀ {x path value span ks v m}, f.node = .assign x path value span →
        (writeVariable x ks v co.env).2 = some m → P m.toVal) → P e := by
  rcases step_next_cases hs with ⟨f, fs, hc, hf, ht⟩ | ⟨-, hexit⟩
  · refine ⟨f, fs, hc, hf, fun hops hwrite => ?_⟩
    exact (execute_raises fs hc hops hwrite s).next ht e he
  · obtain ⟨fs, env, -, rfl, -⟩ := exit_next hexit
    cases he

theorem begun_control (d : Val) (co : Thread) : (co.begun d).control = co.control := by
  unfold begun
  split <;> rfl

/-- If all errors but that of stray loop control have a property, then so have those that are pending. -/
theorem raises_keeps {allowed : Runtime τ → Prop} (hallowed : ∀ rt, allowed rt → rt.Throws P)
    (hP : ∀ m : Mistake, m ≠ .strayControl → P m.toVal) (program : Stmt) (guarded : Bool) :
    Keeps allowed program guarded (fun co => co.control = .none) (Raises P) where
  fresh := rfl
  begun {co} d h := raises_of_none ((begun_control d co).trans h)
  next {rt co co' s s'} hrt _ hs := by
    intro e he
    obtain ⟨f, fs, -, -, hraises⟩ := step_raises hs he
    refine hraises ?_ ?_
    · intro operand _
      exact eval_throws (hallowed rt hrt) (fun m hm => hP m (ne_stray_of_ordinary hm)) fun x _ _ => hP _ nofun
    · intro x path value span ks v m _ hm
      by_cases hx : x ∈ co.env.map Prod.fst
      · exact hP m (ne_stray_of_ordinary (writeVariable_bound hx ks v hm))
      · rw [writeVariable_unbound hx] at hm
        cases hm
        exact hP _ nofun
  yielded {rt co co' s s' v} _ _ _ hv := by
    rw [outcome_suspend hv]

end Coroutine

end VirtualComputer
