import VirtualComputer.Proofs.Guest.Exactness
import VirtualComputer.Proofs.Guest.Resume

/-!
# Programs come by clean values only

A clean value has no positions in it, and its objects are in order.  Natives make clean values of clean ones
(`apply_clean`, `call_clean`), and so do evaluations (`eval_clean`), steps (`step_clean`) and resumes
(`resume_clean`): whatever a coroutine keeps in its variables and hands out is clean.
-/

namespace VirtualComputer

/-- A value without positions whose objects are in order. -/
structure Val.Clean (v : Val) : Prop where
  bare : v.bare = v
  ordered : v.Ordered

/-- All values of a list are clean. -/
abbrev AllClean (vs : List Val) : Prop :=
  ∀ v ∈ vs, v.Clean

/-- All values of named ones are clean. -/
abbrev EntriesClean (es : List (String × Val)) : Prop :=
  ∀ e ∈ es, e.2.Clean

/-! ## Values -/

theorem clean_null : Val.null.Clean := ⟨rfl, trivial⟩

theorem clean_bool (b : Bool) : (Val.bool b).Clean := ⟨rfl, trivial⟩

theorem clean_num (x : Float) : (Val.num x).Clean := ⟨rfl, trivial⟩

theorem clean_str (s : String) : (Val.str s).Clean := ⟨rfl, trivial⟩

theorem clean_native (n : Native) : (Val.native n).Clean := ⟨rfl, trivial⟩

theorem clean_error (code message : String) : (Val.error code message).Clean := ⟨rfl, trivial⟩

theorem map_bare_eq_self {vs : List Val} : vs.map Val.bare = vs ↔ ∀ v ∈ vs, v.bare = v := by
  conv_lhs => rw [← List.map_id vs, List.map_map]
  exact List.map_inj_left

theorem clean_list {vs : List Val} : (Val.list vs).Clean ↔ AllClean vs := by
  constructor
  · rintro ⟨hb, ho⟩ v hv
    rw [Val.bare, Val.bareItems_eq, Val.list.injEq, map_bare_eq_self] at hb
    exact ⟨hb v hv, Val.orderedItems_iff.1 ho v hv⟩
  · intro h
    refine ⟨?_, Val.orderedItems_iff.2 fun v hv => (h v hv).ordered⟩
    rw [Val.bare, Val.bareItems_eq, map_bare_eq_self.2 fun v hv => (h v hv).bare]

theorem clean_bound {n : Native} {args : List Val} : (Val.bound n args).Clean ↔ AllClean args := by
  constructor
  · rintro ⟨hb, ho⟩ v hv
    rw [Val.bare, Val.bareItems_eq, Val.bound.injEq, map_bare_eq_self] at hb
    exact ⟨hb.2 v hv, Val.orderedItems_iff.1 ho v hv⟩
  · intro h
    refine ⟨?_, Val.orderedItems_iff.2 fun v hv => (h v hv).ordered⟩
    rw [Val.bare, Val.bareItems_eq, map_bare_eq_self.2 fun v hv => (h v hv).bare]

theorem bareEntries_eq_self {es : List (String × Val)} : Val.bareEntries es = es ↔ ∀ e ∈ es, e.2.bare = e.2 := by
  rw [Val.bareEntries_eq]
  conv_lhs => rw [← List.map_id es, List.map_map]
  rw [List.map_inj_left]
  exact forall₂_congr fun e _ => by
    obtain ⟨k, v⟩ := e
    simp

theorem clean_obj {es : List (String × Val)} : (Val.obj es).Clean ↔ Entries.Ordered es ∧ EntriesClean es := by
  constructor
  · rintro ⟨hb, ho⟩
    rw [Val.bare, Val.obj.injEq, bareEntries_eq_self] at hb
    exact ⟨ho.1, fun e he => ⟨hb e he, Val.orderedEntries_iff.1 ho.2 e he⟩⟩
  · rintro ⟨ho, h⟩
    refine ⟨?_, ho, Val.orderedEntries_iff.2 fun e he => (h e he).ordered⟩
    rw [Val.bare, bareEntries_eq_self.2 fun e he => (h e he).bare]

theorem clean_ofList {es : List (String × Val)} (h : EntriesClean es) : (Val.obj (Entries.ofList es)).Clean :=
  clean_obj.2 ⟨Entries.ofList_ordered es, fun e he => h e (Entries.mem_ofList he)⟩

theorem clean_toVal (m : Mistake) : m.toVal.Clean := clean_error _ _

theorem clean_ofScalar (a : Scalar) : (Val.ofScalar a).Clean := by
  cases a <;> exact ⟨rfl, trivial⟩

theorem clean_loaded {text : String} {v : Val} (h : Val.load? text = some v) : v.Clean :=
  ⟨(Val.restored_of_load h).bare, (Val.restored_of_load h).ordered⟩

theorem clean_get {k : String} {es : Entries Val} (h : EntriesClean es) : ((Entries.get? k es).getD .null).Clean := by
  cases hg : Entries.get? k es with
  | none => exact clean_null
  | some v => exact h _ (Entries.mem_get hg)

theorem clean_getElem {n : ℕ} {vs : List Val} (h : AllClean vs) : (vs[n]?.getD .null).Clean := by
  cases hg : vs[n]? with
  | none => exact clean_null
  | some v => exact h v (List.mem_of_getElem? hg)

/-! ## Natives -/

/-- If there is a result, it has a property. -/
def Gives {ε α : Type} (P : α → Prop) (r : Except ε α) : Prop :=
  ∀ a, r = .ok a → P a

section

variable {ε α β : Type} {P : α → Prop} {Q : β → Prop}

theorem Gives.ok {a : α} (h : P a) : Gives P (.ok a : Except ε α) := by
  rintro _ ⟨⟩
  exact h

theorem Gives.error (e : ε) : Gives P (.error e : Except ε α) := nofun

theorem Gives.bind {r : Except ε α} {f : α → Except ε β} (h : Gives P r) (h' : ∀ a, P a → Gives Q (f a)) :
    Gives Q (r >>= f) := by
  cases r with
  | error e => exact .error e
  | ok a => exact h' a (h a rfl)

theorem gives_any (r : Except ε α) : Gives (fun _ => True) r := fun _ _ => trivial

end

section

variable {n : Native} {args : List Val} (h : AllClean args)
include h

theorem gives_arg2 : Gives (fun p => p.1.Clean ∧ p.2.Clean) (n.arg2 args) := by
  unfold Native.arg2
  split
  · exact .ok ⟨h _ List.mem_cons_self, h _ (List.mem_cons_of_mem _ List.mem_cons_self)⟩
  · exact .error _

theorem sum_clean : Gives Val.Clean (Native.sum args) := by
  refine (gives_arg2 h).bind fun p hp => ?_
  split
  · exact .ok (clean_num _)
  · exact .ok (clean_list.2 (List.forall_mem_append.2 ⟨clean_list.1 hp.1, clean_list.1 hp.2⟩))
  · exact .ok (clean_str _)
  · exact .ok (clean_str _)
  · exact .error _
  · exact .error _

theorem arithmetic_clean (f : Float → Float → Except Mistake Float) :
    Gives Val.Clean (n.arithmetic args f) := by
  refine (gives_arg2 h).bind fun p _ => ?_
  split
  · exact (gives_any _).bind fun x _ => .ok (clean_num x)
  · exact .error _
  · exact .error _

theorem comparison_clean (f : Float → Float → Bool) (g : String → String → Bool) :
    Gives Val.Clean (n.comparison args f g) := by
  refine (gives_arg2 h).bind fun p _ => ?_
  split
  · exact .ok (clean_bool _)
  · exact .ok (clean_bool _)
  · exact .error _

theorem deferred_clean : Gives Val.Clean (Native.deferred args) := by
  unfold Native.deferred
  split
  · exact .ok (clean_bound.2 fun v hv => h v (List.mem_cons_of_mem _ hv))
  · next m first args =>
    obtain ⟨hf, ha⟩ := List.forall_mem_cons.1 h
    exact .ok (clean_bound.2 (List.forall_mem_append.2 ⟨clean_bound.1 hf, ha⟩))
  · exact .error _
  · exact .error _

/-- A native that needs no host makes a clean value of clean ones. -/
theorem apply_clean (n : Native) : Gives Val.Clean (n.apply args) := by
  cases n with
  | add => exact sum_clean h
  | sub => exact arithmetic_clean h _
  | mul => exact arithmetic_clean h _
  | div => exact arithmetic_clean h _
  | mod => exact arithmetic_clean h _
  | eq => exact (gives_any _).bind fun _ _ => .ok (clean_bool _)
  | ne => exact (gives_any _).bind fun _ _ => .ok (clean_bool _)
  | lt => exact comparison_clean h _ _
  | lte => exact comparison_clean h _ _
  | gt => exact comparison_clean h _ _
  | gte => exact comparison_clean h _ _
  | not => exact (gives_any _).bind fun _ _ => .ok (clean_bool _)
  | neg =>
    refine (gives_any _).bind fun v _ => ?_
    split
    · exact .ok (clean_num _)
    · exact .error _
  | len =>
    refine (gives_any _).bind fun v _ => ?_
    split
    · exact .ok (clean_num _)
    · exact .ok (clean_num _)
    · exact .ok (clean_num _)
    · exact .error _
  | str => exact (gives_any _).bind fun _ _ => .ok (clean_str _)
  | type => exact (gives_any _).bind fun _ _ => .ok (clean_str _)
  | push =>
    refine (gives_arg2 h).bind fun p hp => ?_
    split
    · exact .ok (clean_list.2 (List.forall_mem_append.2 ⟨clean_list.1 hp.1, List.forall_mem_singleton.2 hp.2⟩))
    · exact .error _
  | error => exact .error _
  | defer => exact deferred_clean h
  | invoke => exact (gives_any _).bind fun _ _ => (gives_any _).bind fun _ _ => .ok (clean_bound.2 h)
  | persist => exact (gives_any _).bind fun _ _ => .ok (clean_str _)
  | unpersist =>
    refine (gives_any _).bind fun text _ => ?_
    split
    · next hl => exact .ok (clean_loaded hl)
    · exact .error _
  | _ => exact .error _

end

/-- A result or an error is clean. -/
def EitherClean (r : Except Val Val) : Prop :=
  match r with
  | .ok v | .error v => v.Clean

theorem settle_clean {σ : Type} {r : Except Mistake Val} (s : Session σ) (h : Gives Val.Clean r) :
    EitherClean (Native.settle r s).1 := by
  cases r with
  | ok v => exact h v rfl
  | error m => exact clean_toVal m

theorem container_clean (r : Option (List Scalar)) : (Native.container r).Clean := by
  cases r with
  | none => exact clean_list.2 (List.forall_mem_cons.2 ⟨clean_bool false, List.forall_mem_singleton.2 (clean_str _)⟩)
  | some results =>
    refine clean_list.2 (List.forall_mem_cons.2 ⟨clean_bool true, fun v hv => ?_⟩)
    obtain ⟨a, -, rfl⟩ := List.mem_map.1 hv
    exact clean_ofScalar a

theorem elim_clean (o : Option String) : (o.elim Val.null .str).Clean := by
  cases o with
  | none => exact clean_null
  | some s => exact clean_str s

/-- A native makes a clean value or a clean error of clean values. -/
theorem call_clean {σ : Type} (host : Host σ) (c : Conditions) (n : Native) {args : List Val} (h : AllClean args)
    (s : Session σ) : EitherClean (n.call host c args s).1 := by
  unfold Native.call
  split
  · exact clean_toVal _
  split
  · exact clean_num _
  · exact clean_num _
  · exact clean_num _
  · exact clean_num _
  · exact clean_num _
  · exact clean_str _
  · exact elim_clean _
  · exact clean_null
  · refine settle_clean s ?_
    cases Native.peerName.stringArg args 0 with
    | error m => exact .error m
    | ok a => exact .ok (elim_clean _)
  · split
    · exact clean_toVal _
    · exact container_clean _
  · exact settle_clean s (apply_clean h _)

/-! ## Evaluations -/

variable {τ : Type}

/-- Globals are clean, and what calls come to is clean if their arguments are. -/
structure Runtime.Clean (rt : Runtime τ) : Prop where
  globals : EntriesClean rt.globals
  call : ∀ n args s, AllClean args → EitherClean (rt.call n args s).1

/-- The value that an interruption carries. -/
def Interruption.value : Interruption → Val
  | .suspend v => v
  | .throw e => e

/-- What has been delivered is clean, if anything has. -/
abbrev DeliveredClean (o : Option Val) : Prop :=
  ∀ v ∈ o, v.Clean

/-- An evaluation comes to something with a property, or is interrupted with a clean value. -/
def Evaluation.Clean {α : Type} (P : α → Prop) (m : Evaluation τ α) : Prop :=
  ∀ s, DeliveredClean s.delivered → DeliveredClean (m s).2.delivered ∧
    match (m s).1 with
    | .ok a => P a
    | .error i => i.value.Clean

section

variable {α β : Type} {P : α → Prop} {Q : β → Prop}

theorem give_clean {a : α} (h : P a) : (Evaluation.give (τ := τ) a).Clean P := fun _ hs => ⟨hs, h⟩

theorem throw_clean (m : Mistake) : (Evaluation.throw (τ := τ) m).Clean P := fun _ hs => ⟨hs, clean_toVal m⟩

theorem andThen_clean {m : Evaluation τ α} {f : α → Evaluation τ β} (hm : m.Clean P)
    (hf : ∀ a, P a → (f a).Clean Q) : Evaluation.Clean Q (m >>= f) := by
  intro s hs
  show DeliveredClean (Evaluation.andThen m f s).2.delivered ∧ _
  have h := hm s hs
  have he : (m >>= f) s = Evaluation.andThen m f s := rfl
  rw [he, Evaluation.andThen]
  rcases hr : m s with ⟨i | a, t⟩
  · rw [hr] at h
    exact h
  · rw [hr] at h
    exact hf a h.2 t h.1

theorem ofExcept_clean {r : Except Mistake Val} (h : Gives Val.Clean r) :
    (Evaluation.ofExcept (τ := τ) r).Clean Val.Clean := by
  cases r with
  | ok v => exact give_clean (h v rfl)
  | error m => exact throw_clean m

end

theorem access_clean {v k : Val} (hv : v.Clean) : Gives Val.Clean (v.access k) := by
  unfold Val.access
  split
  · exact .ok (clean_get (clean_obj.1 hv).2)
  · refine .ok ?_
    split
    · exact clean_getElem (clean_list.1 hv)
    · exact clean_null
  · split
    · exact .ok (clean_str _)
    split
    · exact .ok (clean_str _)
    · exact .error _
  · exact .error _

theorem clean_cons {x : String} {v : Val} {env : List (String × Val)} (hv : v.Clean) (he : EntriesClean env) :
    EntriesClean ((x, v) :: env) :=
  List.forall_mem_cons.2 ⟨hv, he⟩

theorem lookup_clean {globals : Entries Val} {env : List (String × Val)} (hg : EntriesClean globals)
    (he : EntriesClean env) {x : String} {v : Val} (h : lookup globals env x = some v) : v.Clean := by
  unfold lookup at h
  split at h
  · next hf =>
    cases h
    exact he _ (List.mem_of_find?_eq_some hf)
  · exact hg _ (Entries.mem_get h)

theorem callable_clean {f : Val} {n : Native} {first : List Val} (hf : f.Clean)
    (h : f.callable? = some (n, first)) : AllClean first := by
  unfold Val.callable? at h
  split at h
  · cases h
    nofun
  · cases h
    exact clean_bound.1 hf
  · cases h

section Eval

variable {rt : Runtime τ} {env : List (String × Val)}

theorem invoke_clean (hrt : rt.Clean) {f : Val} {args : List Val} (hf : f.Clean) (ha : AllClean args) :
    (f.invoke rt args).Clean Val.Clean := by
  unfold Val.invoke
  split
  · next n first h =>
    intro s hs
    have hc := hrt.call n (first ++ args) s.outside (List.forall_mem_append.2 ⟨callable_clean hf h, ha⟩)
    unfold Evaluation.call
    rcases hr : rt.call n (first ++ args) s.outside with ⟨e | v, t⟩ <;> rw [hr] at hc <;> exact ⟨hs, hc⟩
  · exact throw_clean _

mutual

/-- An expression comes to a clean value. -/
theorem eval_clean (hrt : rt.Clean) (henv : EntriesClean env) : ∀ e : Expr, (e.eval rt env).Clean Val.Clean
  | .bool v _ => give_clean (clean_bool v)
  | .num v _ => give_clean (clean_num v)
  | .str v _ => give_clean (clean_str v)
  | .null _ => give_clean clean_null
  | .list es _ => andThen_clean (evalAll_clean hrt henv es) fun _ h => give_clean (clean_list.2 h)
  | .object ps _ => andThen_clean (evalProperties_clean hrt henv ps) fun _ h => give_clean (clean_ofList h)
  | .ident x _ => by
    rw [Expr.eval]
    cases hl : lookup rt.globals env x with
    | none => exact throw_clean _
    | some v => exact give_clean (lookup_clean hrt.globals henv hl)
  | .member e x _ => andThen_clean (eval_clean hrt henv e) fun _ h => ofExcept_clean (access_clean h)
  | .index e k _ => andThen_clean (eval_clean hrt henv e) fun _ h => andThen_clean (eval_clean hrt henv k) fun _ _ =>
      ofExcept_clean (access_clean h)
  | .call f es _ => andThen_clean (eval_clean hrt henv f) fun _ hf => andThen_clean (evalAll_clean hrt henv es)
      fun _ ha => invoke_clean hrt hf ha
  | .yield operand _ => by
    refine andThen_clean (P := DeliveredClean) (fun s hs => ⟨nofun, hs⟩) fun d hd => ?_
    cases d with
    | some v => exact give_clean (hd v rfl)
    | none => exact andThen_clean (evalOption_clean hrt henv operand) fun _ hv _ hs => ⟨hs, hv⟩
  | .logic op l r _ => by
    refine andThen_clean (eval_clean hrt henv l) fun v hv => ?_
    cases op <;> cases v.truthy
    · exact give_clean hv
    · exact eval_clean hrt henv r
    · exact eval_clean hrt henv r
    · exact give_clean hv

theorem evalAll_clean (hrt : rt.Clean) (henv : EntriesClean env) : ∀ es : List Expr,
    (Expr.evalAll rt env es).Clean AllClean
  | [] => give_clean nofun
  | e :: es => andThen_clean (eval_clean hrt henv e) fun _ hv => andThen_clean (evalAll_clean hrt henv es) fun _ hvs =>
      give_clean (List.forall_mem_cons.2 ⟨hv, hvs⟩)

theorem evalProperties_clean (hrt : rt.Clean) (henv : EntriesClean env) : ∀ ps : List (String × Expr),
    (Expr.evalProperties rt env ps).Clean EntriesClean
  | [] => give_clean nofun
  | (_, e) :: ps => andThen_clean (eval_clean hrt henv e) fun _ hv => andThen_clean (evalProperties_clean hrt henv ps)
      fun _ hes => give_clean (List.forall_mem_cons.2 ⟨hv, hes⟩)

theorem evalOption_clean (hrt : rt.Clean) (henv : EntriesClean env) : ∀ e : Option Expr,
    (Expr.evalOption rt env e).Clean Val.Clean
  | none => give_clean clean_null
  | some e => eval_clean hrt henv e

end

theorem segments_clean (hrt : rt.Clean) (henv : EntriesClean env) : ∀ path : List Segment,
    (Segment.evalAll rt env path).Clean AllClean
  | [] => give_clean nofun
  | .property x _ :: path => andThen_clean (segments_clean hrt henv path) fun _ h =>
      give_clean (List.forall_mem_cons.2 ⟨clean_str x, h⟩)
  | .key e _ :: path => andThen_clean (eval_clean hrt henv e) fun _ hk => andThen_clean (segments_clean hrt henv path)
      fun _ h => give_clean (List.forall_mem_cons.2 ⟨hk, h⟩)

end Eval

/-! ## Assignments -/

theorem write_clean {value : Val} (hv : value.Clean) : ∀ (keys : List Val) {target : Val}, target.Clean →
    (Val.write value keys target).1.Clean
  | [], _, _ => hv
  | k :: keys, target, ht => by
    have ih {t : Val} (h : t.Clean) : (Val.write value keys t).1.Clean := write_clean hv keys h
    cases k with
    | str k =>
      cases target with
      | obj entries =>
        obtain ⟨ho, hes⟩ := clean_obj.1 ht
        have hi := ih (clean_get (k := k) hes)
        rw [Val.write]
        refine clean_obj.2 ⟨Entries.insert_ordered ho, fun e he => ?_⟩
        exact (Entries.mem_insert he).elim (fun h => h ▸ hi) (hes e)
      | _ => exact ht
    | num x =>
      cases target with
      | list items =>
        rw [Val.write]
        dsimp only
        split
        · exact ht
        · have hitems : AllClean (if x.toUInt64.toNat = items.length then items ++ [.null] else items) := by
            split
            · exact List.forall_mem_append.2 ⟨clean_list.1 ht, List.forall_mem_singleton.2 clean_null⟩
            · exact clean_list.1 ht
          have hi := ih (clean_getElem (n := x.toUInt64.toNat) hitems)
          refine clean_list.2 fun v hv => ?_
          rcases List.mem_or_eq_of_mem_set hv with hv | rfl
          · exact hitems v hv
          · exact hi
      | _ => exact ht
    | _ => exact ht

theorem writeVariable_clean {x : String} {keys : List Val} {value : Val} (hv : value.Clean) :
    ∀ {env : List (String × Val)}, EntriesClean env → EntriesClean (writeVariable x keys value env).1
  | [], h => h
  | (y, v) :: env, h => by
    obtain ⟨hy, henv⟩ := List.forall_mem_cons.1 h
    rw [writeVariable]
    split
    · exact List.forall_mem_cons.2 ⟨write_clean hv keys hy, henv⟩
    · exact List.forall_mem_cons.2 ⟨hy, writeVariable_clean hv henv⟩

/-! ## Coroutines -/

/-- The value of a pending exit is clean. -/
def ControlClean : Control Val → Prop
  | .return v | .throw v | .suspend v => v.Clean
  | .none | .break | .continue => True

/-- All values that a coroutine keeps are clean. -/
structure Coroutine.Clean (co : Thread) : Prop where
  env : EntriesClean co.env
  control : ControlClean co.control
  delivered : DeliveredClean co.delivered

/-- The coroutine after a step is clean. -/
def StepResult.Clean : StepResult τ → Prop
  | .next co _ | .done co _ | .fault _ co _ => co.Clean

/-- The value that a resume comes to is clean. -/
def Outcome.Clean : Outcome → Prop
  | .yielded v | .returned v | .threw v => v.Clean

theorem outermost_clean {count : Nat} {env : List (String × Val)} (h : EntriesClean env) :
    EntriesClean (outermost count env) := fun e he => h e (List.mem_of_mem_drop he)

namespace Coroutine

theorem unwind_clean {control : Control Val} (hc : ControlClean control) : ∀ (fs : List Frame)
    {env : List (String × Val)}, EntriesClean env →
      EntriesClean (unwind control fs env).2.1 ∧ ControlClean (unwind control fs env).2.2
  | [], _, h => ⟨h, hc⟩
  | f :: fs, env, h => by
    have ho : EntriesClean (outermost f.base env) := outermost_clean h
    have ih := unwind_clean hc fs ho
    unfold unwind
    dsimp only
    split
    · exact ⟨ho, trivial⟩
    · exact ⟨ho, trivial⟩
    · exact ⟨List.forall_mem_cons.2 ⟨hc, ho⟩, trivial⟩
    · exact ih

theorem exit_clean {co : Thread} (h : co.Clean) (s : τ) : (exit co s).Clean := by
  obtain ⟨he, hc⟩ := unwind_clean h.control co.frames h.env
  unfold exit
  dsimp only
  split <;> exact ⟨he, hc, h.delivered⟩

theorem evaluating_clean {α : Type} {P : α → Prop} {co : Thread} {s : τ} {m : Evaluation τ α}
    {k : α → Thread → τ → StepResult τ} (h : co.Clean) (hm : m.Clean P)
    (hk : ∀ a co' s, P a → co'.Clean → (k a co' s).Clean) : (evaluating co s m k).Clean := by
  have hs := hm ⟨co.delivered, s⟩ h.delivered
  unfold evaluating
  rcases hr : m ⟨co.delivered, s⟩ with ⟨(v | e) | a, t⟩ <;> rw [hr] at hs
  · exact ⟨h.env, hs.2, hs.1⟩
  · exact ⟨h.env, hs.2, hs.1⟩
  · exact hk a _ _ hs.2 ⟨h.env, h.control, hs.1⟩

theorem measured_clean {rt : Runtime τ} {co : Thread} (h : co.Clean) (s : τ) : (measured rt co s).Clean := by
  unfold measured
  rcases rt.admits co s with ⟨_ | _, t⟩ <;> exact h

variable {rt : Runtime τ} (hrt : rt.Clean)
include hrt

theorem execute_clean (f : Frame) (fs : List Frame) {co : Thread} (h : co.Clean) (s : τ) :
    (execute rt f fs co s).Clean := by
  unfold execute
  split
  · split
    · exact ⟨outermost_clean h.env, h.control, h.delivered⟩
    · exact ⟨h.env, h.control, h.delivered⟩
  · refine evaluating_clean h (evalOption_clean hrt h.env _) fun v co' s hv h' => measured_clean ?_ s
    exact ⟨clean_cons hv h'.env, h'.control, h'.delivered⟩
  · next x path value _ _ _ =>
    have hops : Evaluation.Clean (fun p : Val × List Val => p.1.Clean) (Expr.eval rt co.env value >>= fun v =>
        Segment.evalAll rt co.env path >>= fun ks => Evaluation.give (v, ks)) :=
      andThen_clean (eval_clean hrt h.env value) fun v hv =>
        andThen_clean (segments_clean hrt h.env path) fun ks _ => give_clean hv
    refine evaluating_clean h hops fun p co' s hv h' => ?_
    have hw : EntriesClean (writeVariable x p.2 p.1 co'.env).1 := writeVariable_clean hv h'.env
    dsimp only
    rcases hr : writeVariable x p.2 p.1 co'.env with ⟨env, _ | m⟩ <;> rw [hr] at hw
    · refine measured_clean ?_ s
      exact ⟨hw, h'.control, h'.delivered⟩
    · exact ⟨hw, clean_toVal m, h'.delivered⟩
  · refine evaluating_clean h (eval_clean hrt h.env _) fun v co' s _ h' => ?_
    dsimp only
    split
    · exact ⟨h'.env, h'.control, h'.delivered⟩
    · split <;> exact ⟨h'.env, h'.control, h'.delivered⟩
  · refine evaluating_clean h (eval_clean hrt h.env _) fun v co' s _ h' => ?_
    split <;> exact ⟨h'.env, h'.control, h'.delivered⟩
  · exact evaluating_clean h (evalOption_clean hrt h.env _) fun v co' s hv h' => ⟨h'.env, hv, h'.delivered⟩
  · exact ⟨h.env, h.control, h.delivered⟩
  · exact ⟨outermost_clean h.env, h.control, h.delivered⟩
  · exact evaluating_clean h (eval_clean hrt h.env _) fun v co' s _ h' => ⟨h'.env, h'.control, h'.delivered⟩
  · exact ⟨h.env, trivial, h.delivered⟩
  · exact ⟨h.env, trivial, h.delivered⟩
  · exact h

theorem step_clean {co : Thread} (h : co.Clean) (s : τ) : (step rt co s).Clean := by
  unfold step
  split
  · exact h
  · exact h
  · exact execute_clean hrt _ _ h s
  · exact exit_clean h s

theorem run_clean : ∀ (n : ℕ) {co : Thread} (_ : co.Clean) (s : τ), (run rt n co s).Clean
  | 0, _, h, _ => h
  | n + 1, co, h, s => by
    have hs := step_clean hrt h s
    rw [run]
    cases hr : step rt co s with
    | next co' s' => rw [hr] at hs; exact run_clean n hs s'
    | done co' s' => rw [hr] at hs; exact hs
    | fault f co' s' => rw [hr] at hs; exact hs

omit hrt in
theorem outcome_clean {co : Thread} (h : co.Clean) : (outcome co).1.Clean ∧ (outcome co).2.Clean := by
  have hc := h.control
  unfold outcome
  split <;> rename_i hco <;> rw [hco] at hc
  · exact ⟨hc, h.env, trivial, nofun⟩
  · exact ⟨hc, nofun, trivial, h.delivered⟩
  · exact ⟨clean_null, nofun, trivial, h.delivered⟩
  · exact ⟨hc, nofun, trivial, h.delivered⟩
  · exact ⟨clean_toVal _, nofun, trivial, h.delivered⟩
  · exact ⟨clean_toVal _, nofun, trivial, h.delivered⟩

omit hrt in
theorem conclude_clean {r : StepResult τ} (h : r.Clean) : (conclude r).2.1.Clean := by
  cases r with
  | done co s => exact (outcome_clean h).2
  | next co s => exact ⟨h.env, h.control, h.delivered⟩
  | fault f co s => exact ⟨h.env, h.control, h.delivered⟩

/-- What is delivered to a coroutine being clean, it keeps clean values. -/
theorem resume_clean (n : ℕ) {d : Val} (hd : d.Clean) {co : Thread} (h : co.Clean) (s : τ) :
    (co.resume rt n d s).2.1.Clean := by
  cases hs : co.status with
  | fresh =>
    rw [resume_fresh hs]
    refine conclude_clean (run_clean hrt n ?_ s)
    exact ⟨h.env, h.control, h.delivered⟩
  | suspended =>
    rw [resume_suspended hs]
    refine conclude_clean (run_clean hrt n ?_ s)
    exact ⟨h.env, h.control, by rintro _ ⟨⟩; exact hd⟩
  | running => rw [resume_running hs]; exact h
  | dead => rw [resume_dead hs]; exact h

omit hrt in
theorem conclude_outcome_clean {r : StepResult τ} (h : r.Clean) {o : Outcome} (ho : (conclude r).1 = .ok o) :
    o.Clean := by
  cases r with
  | done co s =>
    cases ho
    exact (outcome_clean h).1
  | next co s | fault f co s => cases ho

/-- What it comes to is clean, too. -/
theorem resume_outcome_clean (n : ℕ) {d : Val} (hd : d.Clean) {co : Thread} (h : co.Clean) (s : τ) {o : Outcome}
    (ho : (co.resume rt n d s).1 = .ok o) : o.Clean := by
  cases hs : co.status with
  | fresh =>
    rw [resume_fresh hs] at ho
    exact conclude_outcome_clean (run_clean hrt n (by exact ⟨h.env, h.control, h.delivered⟩) s) ho
  | suspended =>
    rw [resume_suspended hs] at ho
    exact conclude_outcome_clean (run_clean hrt n (by exact ⟨h.env, h.control, by rintro _ ⟨⟩; exact hd⟩) s) ho
  | running =>
    rw [resume_running hs] at ho
    cases ho
  | dead =>
    rw [resume_dead hs] at ho
    cases ho

end Coroutine

end VirtualComputer
