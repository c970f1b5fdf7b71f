import VirtualComputer.Guest.Execution
import VirtualComputer.Proofs.Syntax.Places

/-!
# What evaluations are made of

The evaluation of an expression is put together from values, errors, calls of natives and what is delivered and handed
out.  A property that these have, and that is kept when one evaluation follows another, all evaluations have
(`Evaluation.Pervades`, `eval_pervades`, `segments_pervade`).  So evaluations do not deliver anything
(`eval_undelivered`), and they throw what natives throw, errors of access, and errors of names that are not found
(`eval_throws`).
-/

namespace VirtualComputer

variable {τ α β : Type}

/-- One evaluation after another comes to a value if both do. -/
theorem andThen_ok {m : Evaluation τ α} {f : α → Evaluation τ β} {b : β} {s u : Scratch τ} :
    (m >>= f) s = (.ok b, u) ↔ ∃ a t, m s = (.ok a, t) ∧ f a t = (.ok b, u) := by
  show Evaluation.andThen m f s = _ ↔ _
  rw [Evaluation.andThen]
  rcases m s with ⟨i | a, t⟩
  · simp
  · simp

/-- A mistake that is not about a name or loop control. -/
def Mistake.isOrdinary : Mistake → Bool
  | .undefined _ | .undeclared _ | .strayControl => false
  | _ => true

/-- A property that evaluations have of which those of expressions are made, and that composing keeps. -/
structure Evaluation.Pervades (rt : Runtime τ) (Q : {α : Type} → Evaluation τ α → Prop) : Prop where
  give : ∀ {α : Type} (a : α), Q (Evaluation.give a)
  andThen : ∀ {α β : Type} {m : Evaluation τ α} {f : α → Evaluation τ β}, Q m → (∀ a, Q (f a)) → Q (m >>= f)
  take : Q (Evaluation.take (τ := τ))
  suspend : ∀ v : Val, Q (Evaluation.suspend (τ := τ) (α := Val) v)
  call : ∀ n args, Q (Evaluation.call rt n args)
  fail : ∀ m : Mistake, m.isOrdinary → Q (Evaluation.throw (τ := τ) (α := Val) m)

section Pervades

variable {rt : Runtime τ} {Q : {α : Type} → Evaluation τ α → Prop} (hQ : Evaluation.Pervades rt Q)
include hQ

theorem access_pervades (v k : Val) : Q (Evaluation.ofExcept (τ := τ) (v.access k)) := by
  unfold Val.access
  split
  · exact hQ.give _
  · exact hQ.give _
  · split
    · exact hQ.give _
    split
    · exact hQ.give _
    · exact hQ.fail _ rfl
  · exact hQ.fail _ rfl

theorem invoke_pervades (f : Val) (args : List Val) : Q (f.invoke rt args) := by
  unfold Val.invoke
  split
  · exact hQ.call _ _
  · exact hQ.fail _ rfl

/-- Looking a name up may also come to the error of a name that is not found. -/
abbrev Missing (rt : Runtime τ) (Q : {α : Type} → Evaluation τ α → Prop) (env : List (String × Val)) (x : String) :
    Prop :=
  lookup rt.globals env x = none → Q (Evaluation.throw (τ := τ) (α := Val) (.undefined x))

variable {env : List (String × Val)}

mutual

/-- The evaluation of an expression has a pervading property if the names do that it does not find. -/
theorem eval_pervades : ∀ e : Expr, (∀ x ∈ e.names, Missing rt Q env x) → Q (e.eval rt env)
  | .bool .., _ | .num .., _ | .str .., _ | .null _, _ => hQ.give _
  | .ident x _, h => by
    rw [Expr.eval]
    cases hl : lookup rt.globals env x with
    | none => exact h x (List.mem_singleton.2 rfl) hl
    | some v => exact hQ.give v
  | .list es _, h => hQ.andThen (evalAll_pervades es h) fun _ => hQ.give _
  | .object ps _, h => hQ.andThen (evalProperties_pervades ps h) fun _ => hQ.give _
  | .member e _ _, h => hQ.andThen (eval_pervades e h) fun _ => access_pervades hQ _ _
  | .index e k _, h => by
    obtain ⟨he, hk⟩ := List.forall_mem_append.1 h
    exact hQ.andThen (eval_pervades e he) fun _ => hQ.andThen (eval_pervades k hk) fun _ => access_pervades hQ _ _
  | .call f es _, h => by
    obtain ⟨hf, hes⟩ := List.forall_mem_append.1 h
    exact hQ.andThen (eval_pervades f hf) fun _ => hQ.andThen (evalAll_pervades es hes) fun _ =>
      invoke_pervades hQ _ _
  | .yield o _, h => by
    refine hQ.andThen hQ.take fun d => ?_
    cases d with
    | some v => exact hQ.give v
    | none => exact hQ.andThen (evalOption_pervades o h) hQ.suspend
  | .logic op l r _, h => by
    obtain ⟨hl, hr⟩ := List.forall_mem_append.1 h
    refine hQ.andThen (eval_pervades l hl) fun v => ?_
    cases op <;> cases v.truthy
    · exact hQ.give v
    · exact eval_pervades r hr
    · exact eval_pervades r hr
    · exact hQ.give v

theorem evalAll_pervades : ∀ es : List Expr, (∀ x ∈ Expr.namesAll es, Missing rt Q env x) →
    Q (Expr.evalAll rt env es)
  | [], _ => hQ.give _
  | e :: es, h => by
    obtain ⟨he, hes⟩ := List.forall_mem_append.1 h
    exact hQ.andThen (eval_pervades e he) fun _ => hQ.andThen (evalAll_pervades es hes) fun _ => hQ.give _

theorem evalProperties_pervades : ∀ ps : List (String × Expr),
    (∀ x ∈ Expr.namesProperties ps, Missing rt Q env x) → Q (Expr.evalProperties rt env ps)
  | [], _ => hQ.give _
  | (_, e) :: ps, h => by
    obtain ⟨he, hps⟩ := List.forall_mem_append.1 h
    exact hQ.andThen (eval_pervades e he) fun _ => hQ.andThen (evalProperties_pervades ps hps) fun _ => hQ.give _

theorem evalOption_pervades : ∀ o : Option Expr, (∀ x ∈ Expr.namesOption o, Missing rt Q env x) →
    Q (Expr.evalOption rt env o)
  | none, _ => hQ.give _
  | some e, h => eval_pervades e h

end

theorem segments_pervade : ∀ path : List Segment,
    (∀ e ∈ path.filterMap Segment.key?, ∀ x ∈ e.names, Missing rt Q env x) → Q (Segment.evalAll rt env path)
  | [], _ => hQ.give _
  | .property _ _ :: path, h => hQ.andThen (segments_pervade path h) fun _ => hQ.give _
  | .key e _ :: path, h => by
    obtain ⟨he, hpath⟩ := List.forall_mem_cons.1 h
    exact hQ.andThen (eval_pervades hQ e he) fun _ => hQ.andThen (segments_pervade path hpath) fun _ => hQ.give _

end Pervades

/-! ## What is delivered -/

/-- Nothing has been delivered after an evaluation if nothing had been before. -/
def Evaluation.Undelivered (m : Evaluation τ α) : Prop :=
  ∀ s, s.delivered = none → (m s).2.delivered = none

theorem undelivered_pervades (rt : Runtime τ) : Evaluation.Pervades rt (fun m => m.Undelivered) where
  give _ _ h := h
  take _ _ := rfl
  suspend _ _ h := h
  fail _ _ _ h := h
  call n args s h := by
    unfold Evaluation.call
    rcases rt.call n args s.outside with ⟨_ | _, _⟩ <;> exact h
  andThen {_ _ m f} hm hf := by
    intro s h
    show (Evaluation.andThen m f s).2.delivered = none
    have ht := hm s h
    rw [Evaluation.andThen]
    rcases hr : m s with ⟨i | a, t⟩
    · rw [hr] at ht
      exact ht
    · rw [hr] at ht
      exact hf a t ht

theorem throw_undelivered (m : Mistake) : (Evaluation.throw (τ := τ) (α := α) m).Undelivered := fun _ h => h

section

variable (rt : Runtime τ) (env : List (String × Val))

theorem eval_undelivered (e : Expr) : (e.eval rt env).Undelivered :=
  eval_pervades (undelivered_pervades rt) e fun _ _ _ => throw_undelivered _

theorem evalOption_undelivered (o : Option Expr) : (Expr.evalOption rt env o).Undelivered :=
  evalOption_pervades (undelivered_pervades rt) o fun _ _ _ => throw_undelivered _

theorem segments_undelivered (path : List Segment) : (Segment.evalAll rt env path).Undelivered :=
  segments_pervade (undelivered_pervades rt) path fun _ _ _ _ _ => throw_undelivered _

end

/-! ## What is thrown -/

/-- All errors that an evaluation throws have a property. -/
def Evaluation.Throws (P : Val → Prop) (m : Evaluation τ α) : Prop :=
  ∀ s e t, m s = (.error (.throw e), t) → P e

/-- All errors that natives throw have a property. -/
def Runtime.Throws (P : Val → Prop) (rt : Runtime τ) : Prop :=
  ∀ n args s e t, rt.call n args s = (.error e, t) → P e

section Throws

variable {P : Val → Prop}

theorem give_throws (a : α) : (Evaluation.give (τ := τ) a).Throws P := nofun

theorem throw_throws {m : Mistake} (h : P m.toVal) : (Evaluation.throw (τ := τ) (α := α) m).Throws P := by
  rintro s e t ⟨⟩
  exact h

theorem andThen_throws {m : Evaluation τ α} {f : α → Evaluation τ β} (hm : m.Throws P) (hf : ∀ a, (f a).Throws P) :
    Evaluation.Throws P (m >>= f) := by
  intro s e t h
  have hs : Evaluation.andThen m f s = (.error (.throw e), t) := h
  rw [Evaluation.andThen] at hs
  rcases hr : m s with ⟨i | a, u⟩
  · rw [hr] at hs
    cases hs
    exact hm s e _ hr
  · rw [hr] at hs
    exact hf a u e t hs

theorem throws_pervades {rt : Runtime τ} (hrt : rt.Throws P) (hP : ∀ m : Mistake, m.isOrdinary → P m.toVal) :
    Evaluation.Pervades rt (fun m => m.Throws P) where
  give a := give_throws a
  take := nofun
  suspend _ := nofun
  fail m h := throw_throws (hP m h)
  andThen := andThen_throws
  call n args := by
    intro s e t h
    unfold Evaluation.call at h
    rcases hr : rt.call n args s.outside with ⟨e' | v, u⟩
    · rw [hr] at h
      cases h
      exact hrt n args _ _ _ hr
    · rw [hr] at h
      cases h

/-- An expression throws what natives throw, errors of access, and those of names that it does not find. -/
theorem eval_throws {rt : Runtime τ} (hrt : rt.Throws P) (hP : ∀ m : Mistake, m.isOrdinary → P m.toVal)
    {env : List (String × Val)} {e : Expr}
    (hx : ∀ x ∈ e.names, lookup rt.globals env x = none → P (Mistake.undefined x).toVal) :
    (e.eval rt env).Throws P :=
  eval_pervades (throws_pervades hrt hP) e fun x h hl => throw_throws (hx x h hl)

end Throws

end VirtualComputer
