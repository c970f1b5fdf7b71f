import VirtualComputer.Json.Token
import VirtualComputer.Json.Writer
import VirtualComputer.Proofs.Decimal.Spelling

/-!
# Numbers in data texts

A written number is read as itself: a finite double (`number_writeFloat`) or a whole number of a word
(`number_integer`).  A longer whole number is read as something that is no whole number.  Whatever is read can be
written again or is unusable (`written_number`).  The texts of numbers are words (`wordy_writeFloat`,
`wordy_integer`).
-/

namespace VirtualComputer.Json

open Decimal

/-! ## Reading what is written -/

/-- What a numeral that is not taken as a whole number denotes. -/
def floating (n : Numeral) : Json :=
  ((n.round .double).map fun b => Json.float (b.toFloat n.negative)).getD .unusable

theorem number_of_read {cs : List Char} {n : Numeral} (h : Numeral.read? cs = some n) (hs : n.isStrict) :
    Token.number? cs = some (match n.toInt? with
      | some i => if isWord i && !(n.negative && i = 0) then .int i else floating n
      | none => floating n) := by
  simp only [Token.number?, h, hs, Option.bind_eq_bind, Option.bind_some, guard_true, Option.pure_def]
  cases n.toInt? with
  | none => rfl
  | some i =>
    dsimp only
    split <;> rfl

/-- The text of a finite double is read as that double. -/
theorem number_writeFloat {x : Float} (h : x.isFinite) : Token.number? (writeFloat x) = some (.float x) := by
  obtain ⟨s, hs, ht, hr⟩ := read_stored h
  have hw : writeFloat x = (Layout.stored.finite x).toList := by
    rw [writeFloat, stored?, if_pos h]
    rfl
  rw [hw, ht, number_of_read (Spelling.read_text hs _) (Spelling.isStrict_numeral hs _), Spelling.toInt_numeral hs]
  simp only [floating, hr, Option.map_some, Option.getD_some, Spelling.negative_numeral, toFloat_ofBits h]

/-- A whole number without leading zeros is taken apart as its sign and its digits. -/
theorem read_integerText (i : ℤ) : Numeral.read? (integerText i).toList =
    some ⟨if i < 0 then some true else none, toDigits i.natAbs, none, none⟩ := by
  have hds := allDigits_toDigits i.natAbs
  have hne : toDigits i.natAbs ≠ [] := Nat.toDigits_ne_nil
  have hemp : (toDigits i.natAbs).isEmpty = false := by rw [List.isEmpty_eq_false_iff]; exact hne
  obtain ⟨ht, hd⟩ := @takeWhile_digits _ [] hds nofun
  rw [List.append_nil] at ht hd
  have hsign : Numeral.takeSign (integerText i).toList = (if i < 0 then some true else none, toDigits i.natAbs) := by
    rw [integerText]
    split
    · simp only [String.toList_append, String.toList_ofList]
      rfl
    · rw [String.toList_ofList, show i.toNat = i.natAbs by omega]
      cases hc : toDigits i.natAbs with
      | nil => exact absurd hc hne
      | cons c cs =>
        have hc : c.isDigit := hds c (by rw [hc]; exact List.mem_cons_self)
        unfold Numeral.takeSign
        split
        · next heq => cases heq; cases hc
        · next heq => cases heq; cases hc
        · rfl
  rw [Numeral.read?, hsign]
  simp only [ht, hd, hemp, Numeral.takeFraction, Numeral.exponent?]
  rfl

/-- A whole number of a word is read as itself. -/
theorem number_integer (i : ℤ) : Token.number? (integerText i).toList = some (if isWord i then .int i else
    floating ⟨if i < 0 then some true else none, toDigits i.natAbs, none, none⟩) := by
  have hstrict : (⟨if i < 0 then some true else none, toDigits i.natAbs, none, none⟩ : Numeral).isStrict := by
    have hs : (if i < 0 then some true else none : Option Bool) ≠ some false := by split <;> nofun
    have hl : (decide (toDigits i.natAbs = ['0']) || (toDigits i.natAbs).head?.any (· ≠ '0')) = true := by
      rcases Nat.eq_zero_or_pos i.natAbs with h0 | h0
      · rw [h0]
        rfl
      · cases hc : (toDigits i.natAbs).head? with
        | none => exact absurd (List.head?_eq_none_iff.1 hc) Nat.toDigits_ne_nil
        | some c =>
          have hne : c ≠ '0' := fun h => head_toDigits h0 (by rw [hc, h])
          rw [Option.any_some, decide_eq_true hne, Bool.or_true]
    simp only [Numeral.isStrict, Bool.and_eq_true]
    exact ⟨⟨decide_eq_true hs, hl⟩, rfl⟩
  have hint : (⟨if i < 0 then some true else none, toDigits i.natAbs, none, none⟩ : Numeral).toInt? = some i := by
    by_cases h : i < 0
    · simp only [Numeral.toInt?, Numeral.digits, Numeral.negative, if_pos h, Option.getD_none, List.append_nil,
        ofDigits_toDigits]
      exact congrArg some (by omega : -(i.natAbs : ℤ) = i)
    · simp only [Numeral.toInt?, Numeral.digits, Numeral.negative, if_neg h, Option.getD_none, List.append_nil,
        ofDigits_toDigits]
      exact congrArg some (by omega : (i.natAbs : ℤ) = i)
  have hneg : ((⟨if i < 0 then some true else none, toDigits i.natAbs, none, none⟩ : Numeral).negative &&
      decide (i = 0)) = false := by
    rw [Numeral.negative]
    by_cases h : i < 0
    · rw [decide_eq_false (by omega : ¬ i = 0), Bool.and_false]
    · rw [if_neg h]
      rfl
  rw [number_of_read (read_integerText i) hstrict, hint]
  dsimp only
  rw [hneg, Bool.not_false, Bool.and_true]

/-! ## What is read -/

theorem canonical_of_magnitude {b : Binary} {digits : ℕ} {exponent : ℤ}
    (h : magnitude .double digits exponent = some b) : b.Canonical := by
  unfold magnitude at h
  dsimp only at h
  split at h
  · cases h
    exact ⟨by norm_num, le_refl _, by norm_num [Format.double], .inl rfl⟩
  · split at h
    · cases h
    · exact canonical_of_round (Nat.pow_pos (by norm_num)) h

/-- A number that is its own text. -/
inductive Written : Json → Prop where
  | int {i : ℤ} (h : isWord i) : Written (.int i)
  | float {x : Float} (h : x.isFinite) : Written (.float x)
  | unusable : Written .unusable

theorem written_floating (n : Numeral) : Written (floating n) := by
  rw [floating]
  cases h : n.round .double with
  | none => exact .unusable
  | some b => exact .float (isFinite_toFloat (canonical_of_magnitude h) _)

/-- Numbers that are read are whole numbers of a word, finite doubles or unusable. -/
theorem written_number {cs : List Char} {j : Json} (h : Token.number? cs = some j) : Written j := by
  cases hn : Numeral.read? cs with
  | none =>
    rw [Token.number?, hn] at h
    cases h
  | some n =>
    by_cases hs : n.isStrict
    · rw [number_of_read hn hs, Option.some.injEq] at h
      subst h
      split
      · split
        · next hi => exact .int (Bool.and_eq_true_iff.1 hi).1
        · exact written_floating n
      · exact written_floating n
    · rw [Token.number?, hn] at h
      simp [hs] at h

/-! ## Words -/

/-- All characters may stand in words. -/
abbrev Wordy (cs : List Char) : Prop :=
  ∀ c ∈ cs, Lexer.isWordChar c

theorem wordy_of_all {cs : List Char} (h : cs.all Lexer.isWordChar = true) : Wordy cs :=
  List.all_eq_true.1 h

theorem wordy_digits {cs : List Char} (h : AllDigits cs) : Wordy cs := fun c hc => by
  simp only [Lexer.isWordChar, Char.isAlphanum, h c hc, Bool.or_true, Bool.true_or]

theorem Wordy.cons {c : Char} {cs : List Char} (hc : Lexer.isWordChar c) (h : Wordy cs) : Wordy (c :: cs) :=
  List.forall_mem_cons.2 ⟨hc, h⟩

theorem Wordy.append {cs ds : List Char} (h : Wordy cs) (h' : Wordy ds) : Wordy (cs ++ ds) :=
  List.forall_mem_append.2 ⟨h, h'⟩

theorem wordy_spelling {s : Spelling} (h : s.Floating) : Wordy s.text := by
  have hpoint : Wordy s.point := by
    rw [Spelling.point]
    cases hf : s.fraction with
    | none => exact List.forall_mem_nil _
    | some ds => exact .cons rfl (wordy_digits (h.fraction ds hf).1)
  have hmark : Wordy s.mark := by
    rw [Spelling.mark]
    cases he : s.exponent with
    | none => exact List.forall_mem_nil _
    | some p =>
      obtain ⟨minus, ds⟩ := p
      refine .cons rfl (.cons ?_ (wordy_digits (h.exponent _ he).1))
      cases minus <;> rfl
  exact (wordy_digits h.whole).append (hpoint.append hmark)

theorem wordy_writeFloat {x : Float} (h : x.isFinite) : Wordy (writeFloat x) := by
  obtain ⟨s, hs, ht, -⟩ := read_stored h
  rw [writeFloat, stored?, if_pos h, Option.getD_some, ht]
  split
  · exact .cons rfl (wordy_spelling hs)
  · exact wordy_spelling hs

theorem wordy_integer (i : ℤ) : Wordy (integerText i).toList := by
  rw [integerText]
  split
  · simp only [String.toList_append, String.toList_ofList]
    exact .cons rfl (wordy_digits (allDigits_toDigits _))
  · rw [String.toList_ofList]
    exact wordy_digits (allDigits_toDigits _)

end VirtualComputer.Json
