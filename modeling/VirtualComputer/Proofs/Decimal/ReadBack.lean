import VirtualComputer.Proofs.Decimal.Rounding

/-!
# Shortest decimals read back

The decimals that read back are those around the magnitude (`readsBack_iff`).  The search for the shortest
one comes out with one of them (`around_shortest`), and every text of it denotes a number that rounds to the
magnitude again (`magnitude_of_around`).
-/

namespace VirtualComputer.Decimal

/-- The number that a decimal denotes. -/
def Scaled.value (d : Scaled) : ℚ :=
  d.digits * 10 ^ d.exponent

/-! ## Comparing -/

theorem compareScaled_eq (a : ℕ) (i : ℤ) (n : ℕ) (j : ℤ) :
    compareScaled a i n j = compare ((a : ℚ) * 10 ^ i) (n * 2 ^ j) := by
  have hp : (0 : ℚ) < 10 ^ (-i).toNat * 2 ^ (-j).toNat := by positivity
  have hl : (a : ℚ) * 10 ^ i * (10 ^ (-i).toNat * 2 ^ (-j).toNat) =
      ((a * Nat.pow 10 i.toNat * Nat.pow 2 (-j).toNat : ℕ) : ℚ) := by
    rw [zpow_eq_div 10 i]
    simp only [Nat.pow_eq, Nat.cast_mul, Nat.cast_pow, Nat.cast_ofNat]
    field_simp
  have hr : (n : ℚ) * 2 ^ j * (10 ^ (-i).toNat * 2 ^ (-j).toNat) =
      ((n * Nat.pow 2 j.toNat * Nat.pow 10 (-i).toNat : ℕ) : ℚ) := by
    rw [zpow_eq_div 2 j]
    simp only [Nat.pow_eq, Nat.cast_mul, Nat.cast_pow, Nat.cast_ofNat]
    field_simp
  rw [compareScaled]
  rcases lt_trichotomy ((a : ℚ) * 10 ^ i) (n * 2 ^ j) with h | h | h
  · rw [compare_lt_iff_lt.2 h, compare_lt_iff_lt]
    have := mul_lt_mul_of_pos_right h hp
    rw [hl, hr] at this
    exact_mod_cast this
  · rw [compare_eq_iff_eq.2 h, compare_eq_iff_eq]
    have : (a : ℚ) * 10 ^ i * (10 ^ (-i).toNat * 2 ^ (-j).toNat) = n * 2 ^ j * (10 ^ (-i).toNat * 2 ^ (-j).toNat) := by
      rw [h]
    rw [hl, hr] at this
    exact_mod_cast this
  · rw [compare_gt_iff_gt.2 h, compare_gt_iff_gt]
    have := mul_lt_mul_of_pos_right h hp
    rw [hl, hr] at this
    exact_mod_cast this

theorem beq_gt_or (a b : ℚ) (closed : Bool) :
    (compare a b == .gt || (closed && compare a b == .eq)) = true ↔ b ≤ a ∧ (a = b → closed = true) := by
  rcases lt_trichotomy a b with h | h | h
  · rw [compare_lt_iff_lt.2 h]
    simp [h.not_ge]
  · rw [compare_eq_iff_eq.2 h]
    simp [h]
  · rw [compare_gt_iff_gt.2 h]
    simp [h.le, h.ne']

theorem beq_lt_or (a b : ℚ) (closed : Bool) :
    (compare a b == .lt || (closed && compare a b == .eq)) = true ↔ a ≤ b ∧ (a = b → closed = true) := by
  rcases lt_trichotomy a b with h | h | h
  · rw [compare_lt_iff_lt.2 h]
    simp [h.le, h.ne]
  · rw [compare_eq_iff_eq.2 h]
    simp [h]
  · rw [compare_gt_iff_gt.2 h]
    simp [h.not_ge]

/-! ## Reading back -/

theorem cast_low {b : Binary} (h0 : 0 < b.mantissa) :
    (((if b.narrowBelow then 4 * b.mantissa - 1 else 4 * b.mantissa - 2 : ℕ) : ℚ)) * 2 ^ (b.exponent - 2) =
      ((b.mantissa : ℚ) - b.reach) * 2 ^ b.exponent := by
  have h4 : (2 : ℚ) ^ (b.exponent - 2) = 2 ^ b.exponent / 4 := by
    rw [zpow_sub₀ two_ne_zero]
    norm_num
  rw [h4, Binary.reach]
  split
  · rw [Nat.cast_sub (by omega)]
    push_cast
    ring
  · rw [Nat.cast_sub (by omega)]
    push_cast
    ring

theorem cast_high (b : Binary) :
    ((4 * b.mantissa + 2 : ℕ) : ℚ) * 2 ^ (b.exponent - 2) = ((b.mantissa : ℚ) + 1 / 2) * 2 ^ b.exponent := by
  rw [zpow_sub₀ two_ne_zero]
  push_cast
  ring

/-- A decimal reads back when it lies around the magnitude. -/
theorem readsBack_iff {b : Binary} (h0 : 0 < b.mantissa) (d : Scaled) : b.readsBack d ↔ b.Around d.value := by
  rw [Binary.readsBack, Bool.and_eq_true]
  rw [compareScaled_eq, compareScaled_eq, beq_gt_or, beq_lt_or, cast_low h0, cast_high, ← Scaled.value, beq_iff_eq]
  constructor
  · rintro ⟨⟨hl, htl⟩, hh, hth⟩
    exact ⟨hl, hh, fun h => h.elim htl hth⟩
  · rintro ⟨hl, hh, ht⟩
    exact ⟨⟨hl, fun h => ht (.inl h)⟩, hh, fun h => ht (.inr h)⟩

theorem exact_value (b : Binary) : b.exact.value = b.mantissa * 2 ^ b.exponent := by
  rw [Binary.exact, Scaled.value]
  split
  · next h =>
    obtain ⟨n, hn⟩ := Int.eq_ofNat_of_zero_le h
    simp [hn]
  · next h =>
    obtain ⟨n, hn⟩ := Int.eq_ofNat_of_zero_le (show 0 ≤ -b.exponent by omega)
    have he : b.exponent = -(n : ℤ) := by omega
    simp only [Nat.pow_eq, Nat.cast_mul, Nat.cast_pow, Nat.cast_ofNat, he, neg_neg, Int.toNat_natCast, zpow_neg,
      zpow_natCast]
    rw [show (10 : ℚ) = 5 * 2 by norm_num, mul_pow]
    field_simp

/-- A magnitude lies around itself. -/
theorem around_exact (b : Binary) : b.Around b.exact.value := by
  have hu := two_zpow_pos b.exponent
  have hr : 0 < b.reach := by
    rw [Binary.reach]
    split <;> norm_num
  rw [exact_value]
  refine ⟨mul_le_mul_of_nonneg_right (by linarith) hu.le, mul_le_mul_of_nonneg_right (by linarith) hu.le, fun h => ?_⟩
  rcases h with h | h
  · have := mul_right_cancel₀ hu.ne' h
    linarith
  · have := mul_right_cancel₀ hu.ne' h
    linarith

/-! ## The search -/

theorem readsBack_of_pick {tie : Tie} {b : Binary} {dropped : ℕ} {d : Scaled} (h : b.pick tie dropped = some d) :
    b.readsBack d := by
  unfold Binary.pick at h
  dsimp only at h
  generalize compare (2 * b.exact.digits) _ = o at h
  cases hb : b.readsBack ⟨b.exact.digits / Nat.pow 10 dropped, b.exact.exponent + dropped⟩ <;>
    cases ha : b.readsBack ⟨b.exact.digits / Nat.pow 10 dropped + 1, b.exact.exponent + dropped⟩ <;>
    simp only [hb, ha] at h
  · cases h
  · cases h; exact ha
  · cases h; exact hb
  · cases o with
    | lt => cases h; exact hb
    | gt => cases h; exact ha
    | eq =>
      cases tie with
      | upward => cases h; exact ha
      | toEven =>
        dsimp only at h
        split at h
        · cases h; exact hb
        · cases h; exact ha

/-- Trailing zeros make no difference. -/
theorem strip_value : ∀ (n : ℕ) (d : Scaled), (d.strip n).value = d.value
  | 0, _ => rfl
  | n + 1, d => by
    rw [Scaled.strip]
    split
    · next h =>
      obtain ⟨k, hk⟩ := Nat.dvd_of_mod_eq_zero h.2
      rw [strip_value n, Scaled.value, Scaled.value, hk]
      dsimp only
      rw [Nat.mul_div_cancel_left k (by norm_num), zpow_add_one₀ (by norm_num)]
      push_cast
      ring
    · rfl

/-- The search comes out with a decimal that reads back; the exact value is one. -/
theorem around_shortest (tie : Tie) {b : Binary} (h0 : 0 < b.mantissa) : b.Around (b.shortest tie).value := by
  rw [Binary.shortest, strip_value]
  cases hf : (List.range (toDigits b.exact.digits).length).findSome? fun i =>
      b.pick tie ((toDigits b.exact.digits).length - 1 - i) with
  | none => exact around_exact b
  | some d =>
    obtain ⟨i, -, hi⟩ := List.exists_of_findSome?_eq_some hf
    exact (readsBack_iff h0 d).1 (readsBack_of_pick hi)

/-! ## The magnitude of a decimal -/

theorem around_bounds {b : Binary} (hb : b.Canonical) (h0 : 0 < b.mantissa) {x : ℚ} (h : b.Around x) :
    2 ^ (-(1076 : ℕ) : ℤ) ≤ x ∧ x < 2 ^ ((1025 : ℕ) : ℤ) := by
  have hu := two_zpow_pos b.exponent
  have hm : (1 : ℚ) ≤ b.mantissa := by exact_mod_cast h0
  have hm' : (b.mantissa : ℚ) + 1 ≤ 2 ^ 53 := by exact_mod_cast hb.lt
  have hr := b.reach_le
  have hmono {f g : ℤ} (h : f ≤ g) : (2 : ℚ) ^ f ≤ 2 ^ g := zpow_le_zpow_right₀ (by norm_num) h
  constructor
  · calc (2 : ℚ) ^ (-(1076 : ℕ) : ℤ) ≤ 2 ^ (-1 + b.exponent) := hmono (by have := hb.least; omega)
      _ = 1 / 2 * 2 ^ b.exponent := by rw [zpow_add₀ two_ne_zero]; norm_num
      _ ≤ ((b.mantissa : ℚ) - b.reach) * 2 ^ b.exponent := mul_le_mul_of_nonneg_right (by linarith) hu.le
      _ ≤ x := h.low
  · calc x ≤ ((b.mantissa : ℚ) + 1 / 2) * 2 ^ b.exponent := h.high
      _ < 2 ^ 53 * 2 ^ b.exponent := mul_lt_mul_of_pos_right (by linarith) hu
      _ = 2 ^ (b.exponent + 53) := by rw [two_zpow_add]; norm_num
      _ ≤ 2 ^ ((1025 : ℕ) : ℤ) := hmono (by have := hb.greatest; omega)

/-- The places where decimals are taken to be too small or too large lie beyond all doubles. -/
theorem powers_far {k : ℕ} (h : k < 1200) :
    (10 : ℚ) ^ (-400 : ℤ) < 2 ^ (-k : ℤ) ∧ (2 : ℚ) ^ (k : ℤ) < 10 ^ (400 : ℤ) := by
  have h8 : (2 : ℚ) ^ (1200 : ℕ) ≤ 10 ^ (400 : ℕ) := by
    rw [show 1200 = 3 * 400 by rfl, pow_mul]
    exact pow_le_pow_left₀ (by norm_num) (by norm_num) 400
  have hlt : (2 : ℚ) ^ k < 10 ^ (400 : ℕ) := (pow_lt_pow_right₀ (by norm_num) h).trans_le h8
  rw [zpow_neg, zpow_neg, zpow_natCast, show (400 : ℤ) = (400 : ℕ) by rfl, zpow_natCast]
  exact ⟨inv_strictAnti₀ (by positivity) hlt, hlt⟩

theorem digits_bounds {n : ℕ} (hn : 0 < n) :
    (10 : ℚ) ^ ((toDigits n).length - 1 : ℤ) ≤ n ∧ (n : ℚ) < 10 ^ ((toDigits n).length : ℤ) := by
  have hlen : 0 < (toDigits n).length := Nat.length_toDigits_pos
  constructor
  · by_cases h1 : (toDigits n).length = 1
    · rw [h1, Nat.cast_one, sub_self, zpow_zero]
      exact_mod_cast hn
    · have hlt := mt (Nat.length_toDigits_le_iff (by norm_num) (by omega : 0 < (toDigits n).length - 1)).2
        (by rw [toDigits] at hlen ⊢; omega : ¬ (Nat.toDigits 10 n).length ≤ (toDigits n).length - 1)
      have hle : 10 ^ ((toDigits n).length - 1) ≤ n := Nat.le_of_not_lt hlt
      rw [show ((toDigits n).length - 1 : ℤ) = (((toDigits n).length - 1 : ℕ) : ℤ) by omega]
      exact_mod_cast hle
  · exact_mod_cast (Nat.length_toDigits_le_iff (by norm_num) hlen).1 (le_refl _)

/-- A decimal around a magnitude rounds to it. -/
theorem magnitude_of_around {b : Binary} (hb : b.Canonical) (h0 : 0 < b.mantissa) {digits : ℕ} {exponent : ℤ}
    (h : b.Around (digits * 10 ^ exponent)) : magnitude .double digits exponent = some b := by
  obtain ⟨hlow, hhigh⟩ := around_bounds hb h0 h
  have ht : (0 : ℚ) < 10 ^ exponent := by positivity
  have hd : 0 < digits := by
    rcases Nat.eq_zero_or_pos digits with rfl | hd
    · rw [Nat.cast_zero, zero_mul] at hlow
      exact absurd hlow (two_zpow_pos _).not_ge
    · exact hd
  obtain ⟨h₁, h₂⟩ := digits_bounds hd
  have hlt (f g : ℤ) (h : (10 : ℚ) ^ f < 10 ^ g) : f < g := (zpow_lt_zpow_iff_right₀ (by norm_num)).1 h
  have htop : -400 ≤ ((toDigits digits).length : ℤ) + exponent := by
    have hx : (2 : ℚ) ^ (-(1076 : ℕ) : ℤ) < 10 ^ (((toDigits digits).length : ℤ) + exponent) := by
      rw [zpow_add₀ (by norm_num)]
      exact hlow.trans_lt (mul_lt_mul_of_pos_right h₂ ht)
    have := hlt (-400) _ ((powers_far (by omega)).1.trans hx)
    omega
  have htop' : ((toDigits digits).length : ℤ) + exponent ≤ 400 := by
    have hx : (10 : ℚ) ^ ((toDigits digits).length - 1 + exponent : ℤ) < 2 ^ ((1025 : ℕ) : ℤ) := by
      rw [zpow_add₀ (by norm_num)]
      exact (mul_le_mul_of_nonneg_right h₁ ht.le).trans_lt hhigh
    have := hlt _ 400 (hx.trans (powers_far (by omega)).2)
    omega
  rw [magnitude]
  rw [if_neg, if_neg (by omega)]
  · refine round_of_around hb (Nat.mul_pos hd (Nat.pow_pos (by norm_num))) (Nat.pow_pos (by norm_num)) ?_
    rw [zpow_eq_div] at h
    simp only [Nat.pow_eq, Nat.cast_mul, Nat.cast_pow, Nat.cast_ofNat]
    rwa [mul_div_assoc]
  · simp only [Bool.or_eq_true, decide_eq_true_eq]
    omega

end VirtualComputer.Decimal
