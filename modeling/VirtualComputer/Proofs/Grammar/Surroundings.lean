import Mathlib.Data.Bool.AllAny
import VirtualComputer.Proofs.Grammar.Lexing

/-!
# What surrounds an expression

Behind an expression there is an end or an operator that binds less tightly (`Follows`), and from how a term begins it
can be told what it is not: a blank, a unary operator (`Begins.not_unary`) or the keyword of `yield` (`not_yield`).
-/

namespace VirtualComputer

open Grammar

/-! ## What follows an expression -/

namespace Grammar

/-- The characters that close what an expression stands in. -/
def closers : List Char := [')', ']', '\x7d', ',', ';']

/-- The text ends, or closes what an expression stands in. -/
def Closed (rest : List Char) : Prop :=
  ∀ c ∈ rest.head?, c ∈ closers

/-- What may follow an expression whose operators bind at least as tightly as a level: an end, or an operator that
binds less tightly. -/
def Follows (level : Nat) (rest : List Char) : Prop :=
  Closed rest ∨ ∃ (op : BinaryOp) (cs : List Char), op.level < level ∧ rest = ' ' :: (op.text ++ ' ' :: cs)

variable {rest : List Char}

theorem closed_cons {c : Char} (h : c ∈ closers) (cs : List Char) : Closed (c :: cs) := by
  rintro c ⟨⟩
  exact h

theorem Closed.word (h : Closed rest) : ∀ c ∈ rest.head?, isWordChar c = false := by
  have hall : ∀ c ∈ closers, isWordChar c = false := List.all_iff_forall_prop.1 (by decide)
  exact fun c hc => hall c (h c hc)

theorem Closed.breaks (h : Closed rest) : Breaks rest := by
  refine ⟨h.word, ?_⟩
  rintro d ds rfl
  exact absurd (h '.' rfl) (by decide)

theorem Closed.skipped (h : Closed rest) : skipped rest = rest := by
  cases rest with
  | nil => rfl
  | cons c rest =>
    have hall : ∀ c ∈ closers, isBlank c = false ∧ c ≠ '/' := List.all_iff_forall_prop.1 (by decide)
    obtain ⟨hblank, hstroke⟩ := hall c (h c rfl)
    exact skipped_cons hblank hstroke rest

theorem Follows.mono {n m : Nat} (hnm : n ≤ m) (h : Follows n rest) : Follows m rest := by
  obtain h | ⟨op, cs, hop, rfl⟩ := h
  · exact .inl h
  · exact .inr ⟨op, cs, Nat.lt_of_lt_of_le hop hnm, rfl⟩

theorem Follows.breaks {n : Nat} (h : Follows n rest) : Breaks rest := by
  obtain h | ⟨op, cs, -, rfl⟩ := h
  · exact h.breaks
  · refine ⟨?_, nofun⟩
    rintro c ⟨⟩
    rfl

/-- An operator is no blank and begins no comment. -/
theorem skipped_operator (op : BinaryOp) (cs : List Char) :
    skipped (op.text ++ ' ' :: cs) = op.text ++ ' ' :: cs := by
  cases op <;> rfl

/-- The character that follows an expression behind blanks is an end or begins an operator. -/
theorem Follows.head {n : Nat} (h : Follows n rest) : ∀ c ∈ (skipped rest).head?,
    c ∈ closers ∨ ∃ op : BinaryOp, op.level < n ∧ op.text.head? = some c := by
  obtain h | ⟨op, cs, hop, rfl⟩ := h
  · intro c hc
    rw [h.skipped] at hc
    exact .inl (h c hc)
  · intro c hc
    rw [skipped_space, skipped_operator] at hc
    refine .inr ⟨op, hop, ?_⟩
    cases op <;> exact hc

end Grammar

/-! ## How a term begins -/

namespace Term

theorem textAt_of_rank {n : Nat} {t : Term} (h : t.rank < n) : textAt n t = '(' :: (t.text ++ [')']) :=
  if_pos h

theorem textAt_of_le {n : Nat} {t : Term} (h : n ≤ t.rank) : textAt n t = t.text :=
  if_neg (Nat.not_lt.2 h)

/-- Where a term has another rank than the one needed, it is written as for the next one. -/
theorem textAt_succ {n : Nat} {t : Term} (h : t.rank ≠ n) : textAt n t = textAt (n + 1) t := by
  obtain h | h := Nat.lt_or_gt_of_ne h
  · rw [textAt_of_rank h, textAt_of_rank (Nat.lt_succ_of_lt h)]
  · rw [textAt_of_le (Nat.le_of_lt h), textAt_of_le h]

/-- The characters other than those of words that begin a term without operators. -/
def openers : List Char := ['"', '\'', '[', '\x7b', '(']

/-- The characters that begin a literal, a name or a term in parentheses. -/
def Opens (c : Char) : Prop :=
  isWordChar c ∨ c ∈ openers

/-- A text begins like a term of some rank, a unary operator being only there for low ranks. -/
def Begins (rank : Nat) (text : List Char) : Prop :=
  ∃ c ∈ text.head?, Opens c ∨ rank ≤ 7 ∧ (c = '!' ∨ c = '-')

variable {n m : Nat} {t : Term} {cs : List Char}

theorem Begins.mono (h : Begins m cs) (hnm : n ≤ m) : Begins n cs := by
  obtain ⟨c, hc, hopens | ⟨hm, hop⟩⟩ := h
  · exact ⟨c, hc, .inl hopens⟩
  · exact ⟨c, hc, .inr ⟨Nat.le_trans hnm hm, hop⟩⟩

theorem Begins.append (h : Begins n cs) (rest : List Char) : Begins n (cs ++ rest) := by
  obtain ⟨c, hc, h⟩ := h
  exact ⟨c, by rw [List.head?_append, Option.mem_def.1 hc]; rfl, h⟩

theorem Begins.at (h : Begins t.rank t.text) (n : Nat) : Begins n (textAt n t) := by
  by_cases hn : t.rank < n
  · rw [textAt_of_rank hn]
    exact ⟨'(', rfl, .inl (.inr (by decide))⟩
  · rw [textAt_of_le (Nat.not_lt.1 hn)]
    exact h.mono (Nat.not_lt.1 hn)

theorem begins_text : ∀ t : Term, Begins t.rank t.text
  | .number n => by
    obtain ⟨d, ds, hds, hdigit⟩ := n.whole.exists_cons
    refine ⟨d, ?_, .inl (.inl (isWordChar_of_isDigit hdigit))⟩
    rw [text, NumberLiteral.text, hds]
    rfl
  | .string q s => ⟨q.char, rfl, .inl (.inr (by cases q <;> decide))⟩
  | .bool b => by cases b <;> exact ⟨_, rfl, .inl (.inl rfl)⟩
  | .null => ⟨'n', rfl, .inl (.inl rfl)⟩
  | .name x => by
    obtain ⟨c, hc, -⟩ := x.start
    exact ⟨c, hc, .inl (.inl (x.wordy c (List.mem_of_mem_head? hc)))⟩
  | .list ts => ⟨'[', rfl, .inl (.inr (by decide))⟩
  | .object ps => ⟨'\x7b', rfl, .inl (.inr (by decide))⟩
  | .member t x => ((begins_text t).at 8).append _
  | .index t k => ((begins_text t).at 8).append _
  | .call t args => ((begins_text t).at 8).append _
  | .unary op t => ⟨op.char, rfl, .inr ⟨Nat.le_refl 7, by cases op <;> decide⟩⟩
  | .binary op l r => (((begins_text l).at op.level).append _)
  | .yield none => ⟨'y', rfl, .inl (.inl rfl)⟩
  | .yield (some t) => ⟨'y', rfl, .inl (.inl rfl)⟩

theorem begins (n : Nat) (t : Term) (rest : List Char) : Begins n (textAt n t ++ rest) :=
  ((begins_text t).at n).append rest

theorem Begins.ne_nil (h : Begins n cs) : cs ≠ [] := by
  obtain ⟨c, hc, -⟩ := h
  rintro rfl
  cases hc

theorem Begins.skipped (h : Begins n cs) : skipped cs = cs := by
  obtain ⟨c, hc, h⟩ := h
  have hsolid : isBlank c = false ∧ c ≠ '/' := by
    rcases h with (hword | hmem) | ⟨-, rfl | rfl⟩
    · constructor
      · by_contra hblank
        have : c = ' ' ∨ c = '\t' ∨ c = '\r' ∨ c = '\n' := by
          simpa only [isBlank, Bool.not_eq_false, Bool.or_eq_true, decide_eq_true_iff, or_assoc] using hblank
        rcases this with rfl | rfl | rfl | rfl <;> cases hword
      · rintro rfl
        cases hword
    · have hall : ∀ c ∈ openers, isBlank c = false ∧ c ≠ '/' := List.all_iff_forall_prop.1 (by decide)
      exact hall c hmem
    · decide
    · decide
  cases cs with
  | nil => cases hc
  | cons c' cs =>
    cases hc
    exact skipped_cons hsolid.1 hsolid.2 cs

theorem Begins.not_unary (h : Begins n cs) (hn : 7 < n) (op : UnaryOp) : op.char ∉ cs.head? := by
  obtain ⟨c, hc, hopens | ⟨hle, -⟩⟩ := h
  · intro hop
    obtain rfl : c = op.char := Option.some.inj ((Option.mem_def.1 hc).symm.trans hop)
    rcases hopens with hword | hmem
    · cases op <;> cases hword
    · cases op <;> exact absurd hmem (by decide)
  · omega

theorem not_yield_head (h : 'y' ∉ cs.head?) : splitKeyword "yield" cs = none :=
  splitKeyword_head (show "yield".toList = ['y', 'i', 'e', 'l', 'd'] from rfl) h

/-- What begins with a term begins with the keyword of `yield` only if the term does. -/
theorem not_yield_at (h : 0 < t.rank → ∀ rest : List Char, (∀ c ∈ rest.head?, isWordChar c = false) →
    splitKeyword "yield" (t.text ++ rest) = none) (hn : 0 < n) {rest : List Char}
    (hrest : ∀ c ∈ rest.head?, isWordChar c = false) : splitKeyword "yield" (textAt n t ++ rest) = none := by
  by_cases hlt : t.rank < n
  · rw [textAt_of_rank hlt]
    exact not_yield_head (by simp)
  · rw [textAt_of_le (Nat.not_lt.1 hlt)]
    exact h (by omega) rest hrest

/-- Only a term that hands something out begins with the keyword for it. -/
theorem not_yield : ∀ t : Term, 0 < t.rank → ∀ rest : List Char, (∀ c ∈ rest.head?, isWordChar c = false) →
    splitKeyword "yield" (t.text ++ rest) = none
  | .number n, _, rest, _ => by
    obtain ⟨d, ds, hds, hdigit⟩ := n.whole.exists_cons
    refine not_yield_head ?_
    rw [text, NumberLiteral.text, hds]
    rintro ⟨⟩
    cases hdigit
  | .string q s, _, rest, _ => not_yield_head (by cases q <;> rintro ⟨⟩)
  | .bool b, _, rest, _ => not_yield_head (by cases b <;> rintro ⟨⟩)
  | .null, _, rest, _ => not_yield_head (by rintro ⟨⟩)
  | .name x, _, rest, hrest => splitKeyword_none (List.all_eq_true.2 x.wordy) hrest (name_ne_reserved x (by decide))
  | .list ts, _, rest, _ => not_yield_head (by rintro ⟨⟩)
  | .object ps, _, rest, _ => not_yield_head (by rintro ⟨⟩)
  | .member t x, _, rest, _ => by
    rw [text, List.append_assoc]
    exact not_yield_at (not_yield t) (by decide) (by rintro c ⟨⟩; rfl)
  | .index t k, _, rest, _ => by
    rw [text, List.append_assoc]
    exact not_yield_at (not_yield t) (by decide) (by rintro c ⟨⟩; rfl)
  | .call t args, _, rest, _ => by
    rw [text, List.append_assoc]
    exact not_yield_at (not_yield t) (by decide) (by rintro c ⟨⟩; rfl)
  | .unary op t, _, rest, _ => not_yield_head (by cases op <;> rintro ⟨⟩)
  | .binary op l r, h, rest, _ => by
    rw [text, List.append_assoc]
    exact not_yield_at (not_yield l) h (by rintro c ⟨⟩; rfl)

end Term

end VirtualComputer
