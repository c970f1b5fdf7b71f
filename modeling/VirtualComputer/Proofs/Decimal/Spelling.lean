import VirtualComputer.Proofs.Decimal.Encoding
import VirtualComputer.Proofs.Decimal.ReadBack

/-!
# Stored doubles are read back

The text of a decimal spells out digits with a point or a power of ten (`write_spells`), from which
`Numeral.read?` takes the same parts (`read_text`).  So the stored text of a finite double denotes its magnitude
and its sign (`read_stored`).
-/

namespace VirtualComputer.Decimal

/-! ## Digits -/

theorem ofDigits_eq (cs : List Char) : ofDigits cs = Nat.ofDigitChars 10 cs 0 := rfl

theorem ofDigits_toDigits (n : ℕ) : ofDigits (toDigits n) = n :=
  Nat.ofDigitChars_ten_toDigits

theorem ofDigits_append (cs ds : List Char) :
    ofDigits (cs ++ ds) = ofDigits cs * 10 ^ ds.length + ofDigits ds := by
  rw [ofDigits_eq, Nat.ofDigitChars_append, Nat.ofDigitChars_eq_ofDigitChars_zero, Nat.mul_comm]
  rfl

theorem ofDigits_zeros (n : ℕ) : ofDigits (List.replicate n '0') = 0 := by
  rw [ofDigits_eq, Nat.ofDigitChars_replicate_zero, Nat.mul_zero]

/-- A text of digits only. -/
abbrev AllDigits (cs : List Char) : Prop :=
  ∀ c ∈ cs, c.isDigit

theorem allDigits_toDigits (n : ℕ) : AllDigits (toDigits n) := fun _ hc =>
  Nat.isDigit_of_mem_toDigits (by omega) (by omega) hc

theorem allDigits_zeros (n : ℕ) : AllDigits (List.replicate n '0') := fun _ hc => by
  rw [List.eq_of_mem_replicate hc]
  rfl

theorem AllDigits.append {cs ds : List Char} (h : AllDigits cs) (h' : AllDigits ds) : AllDigits (cs ++ ds) :=
  List.forall_mem_append.2 ⟨h, h'⟩

/-- Only zero has a leading zero. -/
theorem head_toDigits {n : ℕ} (hn : 0 < n) : (toDigits n).head? ≠ some '0' := by
  induction n using Nat.strongRecOn with
  | ind n ih =>
    rw [toDigits, Nat.toDigits_eq_if (by omega)]
    split
    · next h =>
      have hall : ∀ m < 10, 0 < m → [Nat.digitChar m].head? ≠ some '0' := by decide
      exact hall n h hn
    · next h =>
      have hne : Nat.toDigits 10 (n / 10) ≠ [] := Nat.toDigits_ne_nil
      rw [List.head?_append_of_ne_nil _ hne]
      exact ih (n / 10) (by omega) (by omega)

theorem takeWhile_digits {ds rest : List Char} (h : AllDigits ds) (hr : ∀ c ∈ rest.head?, c.isDigit = false) :
    (ds ++ rest).takeWhile Char.isDigit = ds ∧ (ds ++ rest).dropWhile Char.isDigit = rest := by
  induction ds with
  | nil =>
    cases rest with
    | nil => exact ⟨rfl, rfl⟩
    | cons c rest =>
      have hc : c.isDigit = false := hr c rfl
      simp [hc]
  | cons c ds ih =>
    obtain ⟨hc, h⟩ := List.forall_mem_cons.1 h
    obtain ⟨ht, hd⟩ := ih h
    simp [hc, ht, hd]

/-! ## Spelling -/

/-- The parts of a numeral without its sign: digits before and after the point, and those of the power of ten after
its sign, where `true` stands for a minus. -/
structure Spelling where
  whole : List Char
  fraction : Option (List Char)
  exponent : Option (Bool × List Char)

namespace Spelling

/-- The point with the digits after it. -/
def point (s : Spelling) : List Char :=
  (s.fraction.map ('.' :: ·)).getD []

/-- The power of ten with its mark. -/
def mark (s : Spelling) : List Char :=
  (s.exponent.map fun (minus, ds) => 'e' :: (if minus then '-' else '+') :: ds).getD []

def text (s : Spelling) : List Char :=
  s.whole ++ (s.point ++ s.mark)

def power (s : Spelling) : Option ℤ :=
  s.exponent.map fun (minus, ds) => if minus then -(ofDigits ds : ℤ) else ofDigits ds

/-- The numeral that is read. -/
def numeral (s : Spelling) (minus : Bool) : Numeral :=
  ⟨if minus then some true else none, s.whole, s.fraction, s.power⟩

/-- All parts are digits where they have to be, there is no leading zero, and the number is not written as a whole
one. -/
structure Floating (s : Spelling) : Prop where
  whole : AllDigits s.whole
  fraction : ∀ ds ∈ s.fraction, AllDigits ds ∧ ds ≠ []
  exponent : ∀ p ∈ s.exponent, AllDigits p.2 ∧ p.2 ≠ []
  leading : s.whole = ['0'] ∨ ∃ c ∈ s.whole.head?, c ≠ '0'
  marked : s.fraction.isSome ∨ s.exponent.isSome

variable {s : Spelling}

theorem Floating.ne_nil (h : s.Floating) : s.whole ≠ [] := by
  rcases h.leading with h | ⟨c, hc, -⟩
  · rw [h]; exact List.cons_ne_nil _ _
  · rintro h
    rw [h] at hc
    cases hc

theorem takeSign_text (h : s.Floating) (minus : Bool) :
    Numeral.takeSign (if minus then '-' :: s.text else s.text) = (if minus then some true else none, s.text) := by
  cases minus with
  | true => rfl
  | false =>
    cases hw : s.whole with
    | nil => exact absurd hw h.ne_nil
    | cons c cs =>
      have hc : c.isDigit := h.whole c (by rw [hw]; exact List.mem_cons_self)
      rw [text, hw]
      unfold Numeral.takeSign
      split
      · next heq => cases heq; cases hc
      · next heq => cases heq; cases hc
      · rfl

theorem exponent_mark (h : s.Floating) : Numeral.exponent? s.mark = some s.power := by
  rw [mark, power]
  cases he : s.exponent with
  | none => rfl
  | some p =>
    obtain ⟨minus, ds⟩ := p
    obtain ⟨hds, hne⟩ := h.exponent _ he
    have hall : ds.all Char.isDigit = true := List.all_eq_true.2 hds
    have hemp : ds.isEmpty = false := by rw [List.isEmpty_eq_false_iff]; exact hne
    cases minus <;> simp [Numeral.exponent?, Numeral.takeSign, hall, hemp]

theorem takeFraction_point (h : s.Floating) : Numeral.takeFraction (s.point ++ s.mark) = (s.fraction, s.mark) := by
  have hm : ∀ c ∈ s.mark.head?, c.isDigit = false := by
    rw [mark]
    cases s.exponent with
    | none => exact fun _ hc => nomatch hc
    | some p => rintro c ⟨⟩; rfl
  rw [point]
  cases hf : s.fraction with
  | none =>
    rw [mark]
    cases s.exponent <;> rfl
  | some ds =>
    obtain ⟨ht, hd⟩ := takeWhile_digits (h.fraction ds hf).1 hm
    simp only [Option.map_some, Option.getD_some, List.cons_append, Numeral.takeFraction, ht, hd]

/-- A spelled numeral is read as its parts. -/
theorem read_text (h : s.Floating) (minus : Bool) :
    Numeral.read? (if minus then '-' :: s.text else s.text) = some (s.numeral minus) := by
  have hp : ∀ c ∈ (s.point ++ s.mark).head?, c.isDigit = false := by
    rw [point, mark]
    cases s.fraction with
    | some ds => rintro c ⟨⟩; rfl
    | none =>
      cases s.exponent with
      | none => exact fun _ hc => nomatch hc
      | some p => rintro c ⟨⟩; rfl
  obtain ⟨ht, hd⟩ := takeWhile_digits h.whole hp
  have hne : s.whole.isEmpty = false := by rw [List.isEmpty_eq_false_iff]; exact h.ne_nil
  rw [Numeral.read?, takeSign_text h]
  simp only [text, ht, hd, takeFraction_point h, hne, exponent_mark h]
  rfl

theorem isStrict_numeral (h : s.Floating) (minus : Bool) : (s.numeral minus).isStrict := by
  have hs : (if minus then some true else none : Option Bool) ≠ some false := by cases minus <;> nofun
  have hf : s.fraction ≠ some [] := fun hf => (h.fraction [] hf).2 rfl
  have hl : (decide (s.whole = ['0']) || s.whole.head?.any (· ≠ '0')) = true := by
    rcases h.leading with h | ⟨c, hc, hne⟩
    · rw [decide_eq_true h, Bool.true_or]
    · rw [Option.mem_def.1 hc, Option.any_some, decide_eq_true hne, Bool.or_true]
  simp only [Numeral.isStrict, numeral, Bool.and_eq_true]
  exact ⟨⟨decide_eq_true hs, hl⟩, decide_eq_true hf⟩

theorem toInt_numeral (h : s.Floating) (minus : Bool) : (s.numeral minus).toInt? = none := by
  simp only [Numeral.toInt?, numeral, power, Option.isNone_map]
  rw [if_neg]
  simp only [Bool.and_eq_true, Option.isNone_iff_eq_none, not_and_or]
  rcases h.marked with h | h
  · exact .inl (Option.isSome_iff_ne_none.1 h)
  · exact .inr (Option.isSome_iff_ne_none.1 h)

theorem negative_numeral (minus : Bool) : (s.numeral minus).negative = minus := by
  cases minus <;> rfl

/-- The number that is denoted. -/
def value (s : Spelling) : ℚ :=
  ofDigits (s.whole ++ s.fraction.getD []) * 10 ^ (s.power.getD 0 - (s.fraction.getD []).length)

end Spelling

/-! ## Layouts -/

theorem Spelling.value_of_digits {s : Spelling} {ds : List Char} {e : ℤ}
    (hds : ofDigits (s.whole ++ s.fraction.getD []) = ofDigits ds)
    (he : s.power.getD 0 - (s.fraction.getD []).length = e) : s.value = ofDigits ds * 10 ^ e := by
  rw [Spelling.value, hds, he]

/-- Digits that do not begin with a zero, or the one digit of zero. -/
def Leading (ds : List Char) : Prop :=
  ds = ['0'] ∨ ∃ c ∈ ds.head?, c ≠ '0'

theorem Leading.ne_nil {ds : List Char} (h : Leading ds) : ds ≠ [] := by
  rcases h with rfl | ⟨c, hc, -⟩
  · exact List.cons_ne_nil _ _
  · rintro rfl
    cases hc

theorem Leading.take {ds : List Char} (h : Leading ds) {n : ℕ} (hn : 0 < n) : Leading (ds.take n) := by
  obtain ⟨n, rfl⟩ := Nat.exists_eq_add_one_of_ne_zero hn.ne'
  rcases h with rfl | ⟨c, hc, hne⟩
  · exact .inl (by simp)
  · refine .inr ⟨c, ?_, hne⟩
    rw [List.head?_take, if_neg (Nat.succ_ne_zero n)]
    exact hc

section Layouts

variable {ds : List Char}

/-- A whole number, with its point. -/
theorem whole_spells (hds : AllDigits ds) (hl : Leading ds) {n : ℕ} (h0 : ds = ['0'] → n = 0) :
    ∃ s : Spelling, s.Floating ∧ s.text = ds ++ List.replicate n '0' ++ ['.', '0'] ∧
      s.value = ofDigits ds * 10 ^ (n : ℤ) := by
  refine ⟨⟨ds ++ List.replicate n '0', some ['0'], none⟩, ⟨hds.append (allDigits_zeros n), ?_, nofun, ?_, .inl rfl⟩,
    rfl, ?_⟩
  · rintro _ ⟨⟩
    exact ⟨allDigits_zeros 1, List.cons_ne_nil _ _⟩
  · rcases hl with rfl | ⟨c, hc, hne⟩
    · rw [h0 rfl]
      exact .inl rfl
    · refine .inr ⟨c, ?_, hne⟩
      rw [List.head?_append, Option.mem_def.1 hc]
      rfl
  · simp only [Spelling.value, Spelling.power, Option.map_none, Option.getD_none, Option.getD_some, ofDigits_append,
      ofDigits_zeros, List.length_replicate, List.length_singleton, show ofDigits ['0'] = 0 by rfl]
    push_cast
    norm_num
    ring

/-- Digits with a point among them. -/
theorem pointed_spells (hds : AllDigits ds) (hl : Leading ds) {places : ℕ} (h0 : 0 < places)
    (hlt : places < ds.length) :
    ∃ s : Spelling, s.Floating ∧ s.text = ds.take (ds.length - places) ++ '.' :: ds.drop (ds.length - places) ∧
      s.value = ofDigits ds * 10 ^ (-places : ℤ) := by
  have hlen : (ds.drop (ds.length - places)).length = places := by
    rw [List.length_drop]
    omega
  refine ⟨⟨ds.take (ds.length - places), some (ds.drop (ds.length - places)), none⟩,
    ⟨fun c hc => hds c (List.mem_of_mem_take hc), ?_, nofun, hl.take (by omega), .inl rfl⟩, ?_, ?_⟩
  · rintro _ ⟨⟩
    refine ⟨fun c hc => hds c (List.mem_of_mem_drop hc), fun h => ?_⟩
    rw [h] at hlen
    exact h0.ne hlen
  · simp [Spelling.text, Spelling.point, Spelling.mark]
  · refine Spelling.value_of_digits ?_ ?_
    · rw [Option.getD_some, List.take_append_drop]
    · simp only [Spelling.power, Option.map_none, Option.getD_none, Option.getD_some, hlen]
      omega

/-- Digits after a point and zeros. -/
theorem below_spells (hds : AllDigits ds) (hne : ds ≠ []) {places : ℕ} (hle : ds.length ≤ places) :
    ∃ s : Spelling, s.Floating ∧ s.text = '0' :: '.' :: List.replicate (places - ds.length) '0' ++ ds ∧
      s.value = ofDigits ds * 10 ^ (-places : ℤ) := by
  refine ⟨⟨['0'], some (List.replicate (places - ds.length) '0' ++ ds), none⟩,
    ⟨allDigits_zeros 1, ?_, nofun, .inl rfl, .inl rfl⟩, ?_, ?_⟩
  · rintro _ ⟨⟩
    exact ⟨(allDigits_zeros _).append hds, List.append_ne_nil_of_right_ne_nil _ hne⟩
  · simp [Spelling.text, Spelling.point, Spelling.mark]
  · refine Spelling.value_of_digits ?_ ?_
    · rw [Option.getD_some, ofDigits_append, ofDigits_append, ofDigits_zeros]
      simp [show ofDigits ['0'] = 0 by rfl]
    · simp only [Spelling.power, Option.map_none, Option.getD_none, Option.getD_some, List.length_append,
        List.length_replicate]
      omega

/-- One digit before the point, and a power of ten. -/
theorem scientific_spells (hds : AllDigits ds) (hl : Leading ds) (place : ℤ) :
    ∃ s : Spelling, s.Floating ∧ s.text = scientific ds place ∧
      s.value = ofDigits ds * 10 ^ (place - (ds.length - 1 : ℕ)) := by
  have hpow : ∀ s : Spelling, s.exponent = some (decide (place < 0), toDigits place.natAbs) →
      s.power = some place := by
    intro s hs
    simp only [Spelling.power, hs, Option.map_some, ofDigits_toDigits]
    by_cases h : place < 0
    · rw [if_pos (decide_eq_true h)]
      congr 1
      omega
    · rw [if_neg (by simpa using h)]
      congr 1
      omega
  have hexp : ∀ p ∈ some (decide (place < 0), toDigits place.natAbs), AllDigits p.2 ∧ p.2 ≠ [] := by
    rintro _ ⟨⟩
    exact ⟨allDigits_toDigits _, Nat.toDigits_ne_nil⟩
  cases hds1 : ds.drop 1 with
  | nil =>
    have hlen : ds.length ≤ 1 := by
      have := congrArg List.length hds1
      simp only [List.length_drop, List.length_nil] at this
      omega
    refine ⟨⟨ds, none, some (decide (place < 0), toDigits place.natAbs)⟩, ⟨hds, nofun, hexp, hl, .inr rfl⟩, ?_, ?_⟩
    · rw [scientific, hds1, if_pos hlen, List.take_of_length_le hlen]
      by_cases h : place < 0 <;> simp [Spelling.text, Spelling.point, Spelling.mark, h]
    · refine Spelling.value_of_digits (by simp) ?_
      rw [hpow _ rfl]
      simp only [Option.getD_some, Option.getD_none, List.length_nil]
      omega
  | cons c cs =>
    have hlen : ¬ ds.length ≤ 1 := by
      intro h
      rw [List.drop_eq_nil_of_le h] at hds1
      cases hds1
    refine ⟨⟨ds.take 1, some (ds.drop 1), some (decide (place < 0), toDigits place.natAbs)⟩,
      ⟨fun c hc => hds c (List.mem_of_mem_take hc), ?_, hexp, hl.take Nat.one_pos, .inl rfl⟩, ?_, ?_⟩
    · rintro _ ⟨⟩
      exact ⟨fun c hc => hds c (List.mem_of_mem_drop hc), by rw [hds1]; exact List.cons_ne_nil _ _⟩
    · rw [scientific, if_neg hlen]
      by_cases h : place < 0 <;> simp [Spelling.text, Spelling.point, Spelling.mark, h]
    · refine Spelling.value_of_digits ?_ ?_
      · rw [Option.getD_some, List.take_append_drop]
      · rw [hpow _ rfl]
        simp only [Option.getD_some, List.length_drop]

end Layouts

/-- The stored text of a decimal spells it. -/
theorem write_spells {d : Scaled} (hd : 0 < d.digits ∨ d = ⟨0, 0⟩) :
    ∃ s : Spelling, s.Floating ∧ s.text = Layout.stored.write d ∧ s.value = d.value := by
  have hds := allDigits_toDigits d.digits
  have hl : Leading (toDigits d.digits) := by
    rcases hd with hd | rfl
    · cases hc : (toDigits d.digits).head? with
      | none => exact absurd (List.head?_eq_none_iff.1 hc) Nat.toDigits_ne_nil
      | some c => exact .inr ⟨c, hc, fun h => head_toDigits hd (by rw [hc, h])⟩
    · exact .inl rfl
  have h0 : toDigits d.digits = ['0'] → d.exponent.toNat = 0 := by
    intro h
    rcases hd with hd | rfl
    · exact absurd (by rw [h]; rfl) (head_toDigits hd)
    · rfl
  have hlen : 0 < (toDigits d.digits).length := Nat.length_toDigits_pos
  have hv : ∀ e : ℤ, d.exponent = e → (ofDigits (toDigits d.digits) : ℚ) * 10 ^ e = d.value := by
    rintro e rfl
    rw [ofDigits_toDigits]
    rfl
  rw [Layout.write]
  split
  · rw [Layout.plain]
    split
    · obtain ⟨s, hs, ht, hval⟩ := whole_spells hds hl h0
      exact ⟨s, hs, ht, hval.trans (hv _ (by omega))⟩
    · dsimp only
      split
      · next hlt =>
        obtain ⟨s, hs, ht, hval⟩ := pointed_spells hds hl (by omega) hlt
        exact ⟨s, hs, ht, hval.trans (hv _ (by omega))⟩
      · next hle =>
        obtain ⟨s, hs, ht, hval⟩ := below_spells hds hl.ne_nil (Nat.le_of_not_lt hle)
        exact ⟨s, hs, ht, hval.trans (hv _ (by omega))⟩
  · obtain ⟨s, hs, ht, hval⟩ := scientific_spells hds hl (d.exponent + (toDigits d.digits).length - 1)
    exact ⟨s, hs, ht, hval.trans (hv _ (by omega))⟩

/-! ## Stored doubles -/

theorem around_pos {b : Binary} (h0 : 0 < b.mantissa) {x : ℚ} (h : b.Around x) : 0 < x := by
  have hm : (1 : ℚ) ≤ b.mantissa := by exact_mod_cast h0
  have hr := b.reach_le
  exact (mul_pos (by linarith) (two_zpow_pos b.exponent)).trans_le h.low

/-- The stored text of a finite double is a numeral of its sign and magnitude that is not written as a whole
number. -/
theorem read_stored {x : Float} (h : x.isFinite) : ∃ s : Spelling, s.Floating ∧
    (Layout.stored.finite x).toList = (if decide (x.toBits >>> 63 = 1) then '-' :: s.text else s.text) ∧
    ∀ minus, (s.numeral minus).round .double = some (Binary.ofBits x.toBits) := by
  have hb := canonical_ofBits h
  rw [Layout.finite]
  obtain ⟨b, hbits⟩ : ∃ b, Binary.ofBits x.toBits = b := ⟨_, rfl⟩
  rw [hbits] at hb ⊢
  have hround (s : Spelling) (minus : Bool) : (s.numeral minus).round .double =
      magnitude .double (ofDigits (s.whole ++ s.fraction.getD [])) (s.power.getD 0 - (s.fraction.getD []).length) :=
    rfl
  rcases Nat.eq_zero_or_pos b.mantissa with h0 | h0
  · obtain ⟨s, hs, ht, hv⟩ := write_spells (d := ⟨0, 0⟩) (.inr rfl)
    refine ⟨s, hs, ?_, fun minus => ?_⟩
    · rw [if_pos h0, ← ht, String.toList_ofList]
      simp only [decide_eq_true_eq]
    · have hzero : ofDigits (s.whole ++ s.fraction.getD []) = 0 := by
        have h10 : (10 : ℚ) ^ (s.power.getD 0 - (s.fraction.getD []).length) ≠ 0 := zpow_ne_zero _ (by norm_num)
        have hv : s.value = 0 := by rw [hv, Scaled.value]; norm_num
        exact_mod_cast (mul_eq_zero.1 hv).resolve_right h10
      have hb0 : b = ⟨0, -1074⟩ := by
        obtain ⟨m, e⟩ := b
        obtain rfl : m = 0 := h0
        obtain rfl : e = -1074 := hb.normal.resolve_right (by norm_num)
        rfl
      rw [hround, magnitude, if_pos (by rw [hzero]; rfl), hb0]
      rfl
  · have ha := around_shortest Layout.stored.tie h0
    have hpos : 0 < (b.shortest Layout.stored.tie).digits := by
      rcases Nat.eq_zero_or_pos (b.shortest Layout.stored.tie).digits with hz | hz
      · have := around_pos h0 ha
        rw [Scaled.value, hz] at this
        norm_num at this
      · exact hz
    obtain ⟨s, hs, ht, hv⟩ := write_spells (.inl hpos)
    refine ⟨s, hs, ?_, fun minus => ?_⟩
    · rw [if_neg h0.ne', ← ht, String.toList_ofList]
      simp only [decide_eq_true_eq]
    · rw [hround]
      refine magnitude_of_around hb h0 ?_
      rw [← Spelling.value, hv]
      exact ha

end VirtualComputer.Decimal
