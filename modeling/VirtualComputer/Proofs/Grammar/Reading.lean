import Mathlib.Data.List.Forall2
import VirtualComputer.Grammar.Expression
import VirtualComputer.Proofs.Grammar.Cursors

/-!
# Reading a given text

Forward rules for matchers: on a text a matcher answers with a value and leaves a rest (`Matcher.Answers`), or it
refuses the text (`Matcher.Refuses`), wherever the text stands.  Lexemes leave exactly what follows them
(`Matcher.Reads`), expressions only up to blanks (`Matcher.Takes`): a blank behind them may belong to the operator that
did not come.  Repetition takes items one after another until one is refused (`takes_repeated`).
-/

namespace VirtualComputer.Grammar

namespace Matcher

variable {α β γ : Type} {p q : Matcher α} {f : α → Matcher β} {cs rest : List Char}

/-- On a text a matcher has a value and leaves a rest that together satisfy a condition. -/
def Answers (p : Matcher α) (cs : List Char) (Q : α → List Char → Prop) : Prop :=
  ∀ place, ∃ a c', (p ⟨place, cs⟩).matched = some (a, c') ∧ Q a c'.rest

/-- A matcher leaves exactly the given rest. -/
abbrev Reads (p : Matcher α) (cs rest : List Char) (Q : α → Prop) : Prop :=
  p.Answers cs fun a r => r = rest ∧ Q a

/-- A matcher leaves the given rest but for blanks and comments before it. -/
abbrev Takes (p : Matcher α) (cs rest : List Char) (Q : α → Prop) : Prop :=
  p.Answers cs fun a r => skipped r = skipped rest ∧ Q a

/-- A matcher does not match a text. -/
def Refuses (p : Matcher α) (cs : List Char) : Prop :=
  ∀ place, (p ⟨place, cs⟩).matched = none

variable {Q : α → List Char → Prop} {R : β → List Char → Prop}

theorem Answers.mono {Q' : α → List Char → Prop} (hp : p.Answers cs Q) (h : ∀ a r, Q a r → Q' a r) :
    p.Answers cs Q' := fun place =>
  let ⟨a, c', hm, ha⟩ := hp place
  ⟨a, c', hm, h _ _ ha⟩

theorem Reads.takes {P : α → Prop} (hp : p.Reads cs rest P) : p.Takes cs rest P :=
  hp.mono fun _ _ ⟨hr, ha⟩ => ⟨congrArg skipped hr, ha⟩

theorem answers_pure {a : α} (h : Q a cs) : (pure a : Matcher α).Answers cs Q :=
  fun place => ⟨a, ⟨place, cs⟩, rfl, h⟩

theorem Answers.bind (hp : p.Answers cs Q) (hf : ∀ a r, Q a r → (f a).Answers r R) : (p >>= f).Answers cs R := by
  intro place
  obtain ⟨a, ⟨place', r⟩, hm, ha⟩ := hp place
  obtain ⟨b, c', hm', hb⟩ := hf a r ha place'
  refine ⟨b, c', ?_, hb⟩
  rw [bind_matched, hm]
  exact hm'

theorem Reads.bind {P : α → Prop} (hp : p.Reads cs rest P) (hf : ∀ a, P a → (f a).Answers rest R) :
    (p >>= f).Answers cs R :=
  Answers.bind hp fun a _ ⟨hr, ha⟩ => hr ▸ hf a ha

theorem Refuses.bind (hp : p.Refuses cs) : (p >>= f).Refuses cs := by
  intro place
  rw [bind_matched, hp place]
  rfl

theorem Answers.bind_refuses (hp : p.Answers cs Q) (hf : ∀ a r, Q a r → (f a).Refuses r) : (p >>= f).Refuses cs := by
  intro place
  obtain ⟨a, ⟨place', r⟩, hm, ha⟩ := hp place
  rw [bind_matched, hm]
  exact hf a r ha place'

theorem answers_skip : skip.Answers cs fun _ r => r = skipped cs :=
  fun place => ⟨(), skipFrom .blanks place cs, rfl, skipFrom_rest _ _ _ _⟩

/-- What follows is read behind blanks and comments. -/
theorem answers_skip_bind {f : Unit → Matcher β} (hf : (f ()).Answers (skipped cs) R) :
    (skip >>= f).Answers cs R :=
  answers_skip.bind fun _ _ hr => hr ▸ hf

theorem Takes.bind_skip {P : α → Prop} {f : α → Unit → Matcher β} (hp : p.Takes cs rest P)
    (hf : ∀ a, P a → (f a ()).Answers (skipped rest) R) : (p >>= fun a => skip >>= f a).Answers cs R :=
  Answers.bind hp fun a _ ⟨hr, ha⟩ => answers_skip_bind (hr ▸ hf a ha)

theorem Answers.orElse (hp : p.Answers cs Q) : (p.orElse q).Answers cs Q := by
  intro place
  obtain ⟨a, c', hm, ha⟩ := hp place
  refine ⟨a, c', ?_, ha⟩
  rw [orElse_matched, hm]
  rfl

theorem Refuses.orElse (hp : p.Refuses cs) (hq : q.Answers cs Q) : (p.orElse q).Answers cs Q := by
  intro place
  obtain ⟨a, c', hm, ha⟩ := hq place
  refine ⟨a, c', ?_, ha⟩
  rw [orElse_matched, hp place]
  exact hm

theorem refuses_orElse (hp : p.Refuses cs) (hq : q.Refuses cs) : (p.orElse q).Refuses cs := by
  intro place
  rw [orElse_matched, hp place]
  exact hq place

theorem refuses_firstOf {ps : List (Matcher α)} (h : ∀ p ∈ ps, p.Refuses cs) : (firstOf ps).Refuses cs := by
  induction ps with
  | nil => exact fun _ => rfl
  | cons p ps ih =>
    obtain ⟨hp, h⟩ := List.forall_mem_cons.1 h
    exact refuses_orElse hp (ih h)

theorem Answers.named (hp : p.Answers cs Q) : p.named.Answers cs Q := fun place => by
  rw [named_matched]
  exact hp place

theorem Refuses.named (hp : p.Refuses cs) : p.named.Refuses cs := fun place =>
  (named_matched p _).trans (hp place)

theorem Answers.spanned {g : α → Span → β} (hp : p.Answers cs Q) (h : ∀ a s r, Q a r → R (g a s) r) :
    (p.spanned g).Answers cs R := by
  refine Answers.bind (p := here) (Q := fun _ r => r = cs) (fun place => ⟨_, _, rfl, rfl⟩) ?_
  rintro start _ rfl
  refine hp.bind fun a r ha => ?_
  refine Answers.bind (p := here) (Q := fun _ r' => r' = r) (fun place => ⟨_, _, rfl, rfl⟩) ?_
  rintro stop _ rfl
  exact answers_pure (h a _ _ ha)

theorem Refuses.spanned {g : α → Span → β} (hp : p.Refuses cs) : (p.spanned g).Refuses cs := by
  intro place
  exact Refuses.bind hp place

theorem Answers.optional (hp : p.Answers cs Q) : (optional p).Answers cs fun o r => ∃ a, o = some a ∧ Q a r :=
  Answers.orElse (Answers.bind hp fun a _ ha => answers_pure ⟨a, rfl, ha⟩)

theorem Refuses.optional (hp : p.Refuses cs) : (optional p).Reads cs cs (· = none) :=
  Refuses.orElse (Refuses.bind hp) (answers_pure ⟨rfl, rfl⟩)

/-! ## Repetition -/

theorem Refuses.rounds (hp : p.Refuses cs) (n : Nat) : (rounds p n).Reads cs cs (· = []) := by
  intro place
  cases n with
  | zero => exact ⟨[], _, rfl, rfl, rfl⟩
  | succ n =>
    refine ⟨[], ⟨place, cs⟩, ?_, rfl, rfl⟩
    rw [rounds_matched, hp place]
    rfl

theorem Answers.rounds_succ {n : Nat} {R : List α → List Char → Prop} (hp : p.Answers cs Q)
    (hf : ∀ a r, Q a r → (rounds p n).Answers r fun as => R (a :: as)) : (rounds p (n + 1)).Answers cs R := by
  intro place
  obtain ⟨a, ⟨place', r⟩, hm, ha⟩ := hp place
  obtain ⟨as, c', hm', has⟩ := hf a r ha place'
  refine ⟨a :: as, c', ?_, has⟩
  rw [rounds_matched, hm, Option.elim_some, hm']
  rfl

section Repetition

variable {xs : List β} {text : β → List Char} {P : β → α → Prop} {K : List Char → Prop}

theorem items_followed (hnext : ∀ x ∈ xs, ∀ k, K k → K (text x ++ k)) (hrest : K rest) :
    K (xs.flatMap text ++ rest) := by
  induction xs with
  | nil => exact hrest
  | cons x xs ih =>
    obtain ⟨hx, hxs⟩ := List.forall_mem_cons.1 hnext
    rw [List.flatMap_cons, List.append_assoc]
    exact hx _ (ih hxs)

/-- Rounds take the items of a text one after another, up to a rest on which the next round is refused.  What follows
an item satisfies `K`. -/
theorem takes_rounds (hitem : ∀ x ∈ xs, ∀ k, K k → p.Takes (skipped (text x ++ k)) k (P x))
    (hnext : ∀ x ∈ xs, ∀ k, K k → K (text x ++ k)) (hrest : K rest) (hstop : p.Refuses (skipped rest)) {n : Nat}
    (hn : xs.length ≤ n) (hcs : skipped cs = skipped (xs.flatMap text ++ rest)) :
    (rounds (skip >>= fun _ => p) n).Takes cs rest (List.Forall₂ P xs) := by
  induction xs generalizing n cs with
  | nil =>
    have hrefuses : (skip >>= fun _ => p).Refuses cs :=
      answers_skip.bind_refuses fun _ r hr => by
        rw [hr, hcs]
        exact hstop
    exact (hrefuses.rounds n).mono fun as r ⟨hr, has⟩ => by
      subst hr has
      exact ⟨hcs, .nil⟩
  | cons x xs ih =>
    obtain ⟨hx, hxs⟩ := List.forall_mem_cons.1 hitem
    obtain ⟨-, hnextxs⟩ := List.forall_mem_cons.1 hnext
    obtain ⟨m, rfl⟩ : ∃ m, n = m + 1 := ⟨n - 1, by simp at hn; omega⟩
    rw [List.flatMap_cons, List.append_assoc] at hcs
    refine Answers.rounds_succ (answers_skip_bind (hcs ▸ hx _ (items_followed hnextxs hrest))) ?_
    rintro a r ⟨hr, ha⟩
    exact (ih hxs hnextxs (by simpa using hn) hr).mono fun as r ⟨hr, has⟩ => ⟨hr, .cons ha has⟩

/-- Repetition takes the items of a text, whose blanks in front are skipped already. -/
theorem takes_repeated (hitem : ∀ x ∈ xs, ∀ k, K k → p.Takes (skipped (text x ++ k)) k (P x))
    (hnext : ∀ x ∈ xs, ∀ k, K k → K (text x ++ k)) (hrest : K rest) (hstop : p.Refuses (skipped rest)) {bound : Nat}
    (hbound : xs.length ≤ bound) :
    (repeated bound p).Takes (skipped (xs.flatMap text ++ rest)) rest (List.Forall₂ P xs) := by
  cases xs with
  | nil =>
    refine Answers.bind (Refuses.optional hstop) ?_
    rintro o r ⟨rfl, rfl⟩
    exact answers_pure ⟨skipped_skipped rest, .nil⟩
  | cons x xs =>
    obtain ⟨hx, hxs⟩ := List.forall_mem_cons.1 hitem
    obtain ⟨-, hnextxs⟩ := List.forall_mem_cons.1 hnext
    rw [List.flatMap_cons, List.append_assoc]
    refine Answers.bind (Answers.optional (hx _ (items_followed hnextxs hrest))) ?_
    rintro o r ⟨a, rfl, hr, ha⟩
    have hlength : xs.length ≤ bound := by simp at hbound; omega
    refine Answers.bind (takes_rounds hxs hnextxs hrest hstop hlength hr) ?_
    rintro as r ⟨hr, has⟩
    exact answers_pure ⟨hr, .cons ha has⟩

end Repetition

end Matcher

end VirtualComputer.Grammar
