import Mathlib.Algebra.Order.Field.Power
import Mathlib.Data.Rat.Cast.Order
import Mathlib.Tactic.FieldSimp
import Mathlib.Tactic.Linarith
import Mathlib.Tactic.Positivity
import Mathlib.Tactic.Ring
import VirtualComputer.Decimal.Shortest

/-!
# Rounding to doubles

`Format.double.round` finds the unit of a quotient (`unit_spec`, `UnitOf.unique`) and rounds to a multiple of it
(`roundDiv_spec`).  So every magnitude in its usual form is what all quotients around it round to
(`round_of_around`), and no others come out (`canonical_of_round`).  Whole numbers of a word are never too large
(`exists_round`).
-/

namespace VirtualComputer.Decimal

/-! ## Powers with whole exponents -/

theorem zpow_eq_div (a : ℚ) (e : ℤ) : a ^ e = a ^ e.toNat / a ^ (-e).toNat := by
  rcases le_total 0 e with h | h
  · obtain ⟨n, rfl⟩ := Int.eq_ofNat_of_zero_le h
    simp
  · obtain ⟨n, hn⟩ := Int.eq_ofNat_of_zero_le (Int.neg_nonneg.2 h)
    obtain rfl : e = -(n : ℤ) := by omega
    simp

theorem two_zpow_pos (e : ℤ) : (0 : ℚ) < 2 ^ e := by positivity

theorem scaleBack_den_pos (num : ℕ) {den : ℕ} (hd : 0 < den) (e : ℤ) : 0 < (scaleBack num den e).2 :=
  Nat.mul_pos hd (Nat.pow_pos (Nat.succ_pos 1))

/-- Scaling back divides by a power of two. -/
theorem scaleBack_div (num den : ℕ) (e : ℤ) :
    ((scaleBack num den e).1 : ℚ) / (scaleBack num den e).2 = (num : ℚ) / den / 2 ^ e := by
  rw [zpow_eq_div 2 e, scaleBack]
  simp only [Nat.pow_eq, Nat.cast_mul, Nat.cast_pow, Nat.cast_ofNat]
  field_simp

/-! ## Rounding a quotient -/

/-- A whole number nearest to a rational, an even one if there are two. -/
structure Nearest (x : ℚ) (m : ℕ) : Prop where
  low : m - 1 / 2 ≤ x
  high : x ≤ m + 1 / 2
  tie : x = m - 1 / 2 ∨ x = m + 1 / 2 → m % 2 = 0

theorem Nearest.le {x : ℚ} {m n : ℕ} (h : Nearest x m) (h' : Nearest x n) : m ≤ n := by
  by_contra hlt
  have hle : (n : ℚ) + 1 ≤ m := by exact_mod_cast Nat.lt_of_not_le hlt
  have heq : (m : ℚ) = n + 1 := by linarith [h.low, h'.high]
  have hm : m = n + 1 := by exact_mod_cast heq
  have hx : x = n + 1 / 2 := le_antisymm h'.high (by linarith [h.low])
  have h₁ := h.tie (.inl (by linarith))
  have h₂ := h'.tie (.inr hx)
  omega

theorem Nearest.unique {x : ℚ} {m n : ℕ} (h : Nearest x m) (h' : Nearest x n) : m = n :=
  Nat.le_antisymm (h.le h') (h'.le h)

theorem roundDiv_spec (num : ℕ) {den : ℕ} (hd : 0 < den) : Nearest ((num : ℚ) / den) (roundDiv num den) := by
  have hdq : (0 : ℚ) < den := by exact_mod_cast hd
  have hq : (num : ℚ) / den = (num / den : ℕ) + (num % den : ℕ) / den := by
    have h : (num : ℚ) = den * (num / den : ℕ) + (num % den : ℕ) := by exact_mod_cast (Nat.div_add_mod num den).symm
    rw [h]
    field_simp
  have hr : ((num % den : ℕ) : ℚ) / den < 1 := (div_lt_one hdq).2 (by exact_mod_cast Nat.mod_lt num hd)
  have hr0 : (0 : ℚ) ≤ ((num % den : ℕ) : ℚ) / den := by positivity
  rw [hq, roundDiv]
  set q := num / den
  set r := num % den
  rcases hc : compare (2 * r) den with _ | _ | _
  · have h : ((r : ℕ) : ℚ) / den < 1 / 2 := by
      rw [div_lt_div_iff₀ hdq two_pos]
      have := compare_lt_iff_lt.1 hc
      exact_mod_cast (by omega : r * 2 < 1 * den)
    refine ⟨by linarith, by linarith, fun ht => ?_⟩
    rcases ht with ht | ht <;> linarith
  · have h : ((r : ℕ) : ℚ) / den = 1 / 2 := by
      rw [div_eq_div_iff hdq.ne' two_ne_zero]
      have := compare_eq_iff_eq.1 hc
      exact_mod_cast (by omega : r * 2 = 1 * den)
    dsimp only
    split
    · next hp => exact ⟨by linarith, by linarith, fun _ => by simpa using hp⟩
    · next hp =>
      have hp : q % 2 ≠ 0 := by simpa using hp
      refine ⟨by push_cast; linarith, by push_cast; linarith, fun _ => by omega⟩
  · have h : 1 / 2 < ((r : ℕ) : ℚ) / den := by
      rw [div_lt_div_iff₀ two_pos hdq]
      have := compare_gt_iff_gt.1 hc
      exact_mod_cast (by omega : 1 * den < r * 2)
    refine ⟨by push_cast; linarith, by push_cast; linarith, fun ht => ?_⟩
    push_cast at ht
    rcases ht with ht | ht <;> linarith

/-! ## The unit -/

/-- The exponent in which a rational has as many bits as a double keeps, or the least one. -/
structure UnitOf (x : ℚ) (e : ℤ) : Prop where
  least : -1074 ≤ e
  high : x < 2 ^ (e + 53)
  low : e = -1074 ∨ 2 ^ (e + 52) ≤ x

theorem UnitOf.le {x : ℚ} {e f : ℤ} (h : UnitOf x e) (h' : UnitOf x f) : e ≤ f := by
  rcases h.low with he | he
  · rw [he]; exact h'.least
  · have hlt : (2 : ℚ) ^ (e + 52) < 2 ^ (f + 53) := he.trans_lt h'.high
    have := (zpow_lt_zpow_iff_right₀ (by norm_num : (1 : ℚ) < 2)).1 hlt
    omega

theorem UnitOf.unique {x : ℚ} {e f : ℤ} (h : UnitOf x e) (h' : UnitOf x f) : e = f :=
  le_antisymm (h.le h') (h'.le h)

/-- Bounds of a quotient by the lengths of its numerator and denominator. -/
theorem quotient_bounds {num den : ℕ} (hn : 0 < num) (hd : 0 < den) :
    (2 : ℚ) ^ ((num.log2 : ℤ) - den.log2 - 1) ≤ (num : ℚ) / den ∧
      (num : ℚ) / den < 2 ^ ((num.log2 : ℤ) - den.log2 + 1) := by
  have hdq : (0 : ℚ) < den := by exact_mod_cast hd
  have hn₁ : (2 : ℚ) ^ (num.log2 : ℤ) ≤ num := by exact_mod_cast Nat.log2_self_le hn.ne'
  have hn₂ : (num : ℚ) < 2 ^ ((num.log2 : ℤ) + 1) := by exact_mod_cast Nat.lt_log2_self
  have hd₁ : (2 : ℚ) ^ (den.log2 : ℤ) ≤ den := by exact_mod_cast Nat.log2_self_le hd.ne'
  have hd₂ : (den : ℚ) < 2 ^ ((den.log2 : ℤ) + 1) := by exact_mod_cast Nat.lt_log2_self
  constructor
  · rw [le_div_iff₀ hdq]
    calc (2 : ℚ) ^ ((num.log2 : ℤ) - den.log2 - 1) * den
        ≤ 2 ^ ((num.log2 : ℤ) - den.log2 - 1) * 2 ^ ((den.log2 : ℤ) + 1) := by gcongr
      _ = 2 ^ (num.log2 : ℤ) := by rw [← zpow_add₀ two_ne_zero]; congr 1; ring
      _ ≤ num := hn₁
  · rw [div_lt_iff₀ hdq]
    calc (num : ℚ) < 2 ^ ((num.log2 : ℤ) + 1) := hn₂
      _ = 2 ^ ((num.log2 : ℤ) - den.log2 + 1) * 2 ^ (den.log2 : ℤ) := by
        rw [← zpow_add₀ two_ne_zero]; congr 1; ring
      _ ≤ 2 ^ ((num.log2 : ℤ) - den.log2 + 1) * den := by gcongr

theorem scaleBack_lt_iff (num : ℕ) {den : ℕ} (hd : 0 < den) (e : ℤ) :
    (scaleBack num den e).1 < (scaleBack num den e).2 * Nat.pow 2 53 ↔ (num : ℚ) / den < 2 ^ (e + 53) := by
  have hp : (0 : ℚ) < (scaleBack num den e).2 := by exact_mod_cast scaleBack_den_pos num hd e
  have hz : (2 : ℚ) ^ (e + 53) = 2 ^ 53 * 2 ^ e := by rw [zpow_add₀ two_ne_zero, mul_comm]; rfl
  rw [hz, ← div_lt_iff₀ (two_zpow_pos e), ← scaleBack_div, div_lt_iff₀ hp, mul_comm]
  exact_mod_cast Iff.rfl

theorem double_unit (num den : ℕ) {e : ℤ} (he : e = (num.log2 : ℤ) - den.log2 - 53) :
    Format.double.unit num den = max (-1074)
      (if (scaleBack num den e).1 < (scaleBack num den e).2 * Nat.pow 2 53 then e else e + 1) := by
  subst he
  rfl

theorem unit_spec {num den : ℕ} (hn : 0 < num) (hd : 0 < den) :
    UnitOf ((num : ℚ) / den) (Format.double.unit num den) := by
  obtain ⟨hlow, hhigh⟩ := quotient_bounds hn hd
  obtain ⟨e, he⟩ : ∃ e : ℤ, e = (num.log2 : ℤ) - den.log2 - 53 := ⟨_, rfl⟩
  rw [double_unit num den he]
  have hlow : (2 : ℚ) ^ (e + 52) ≤ (num : ℚ) / den := by
    rw [show e + 52 = (num.log2 : ℤ) - den.log2 - 1 by omega]
    exact hlow
  have hmono {f g : ℤ} (h : f ≤ g) : (2 : ℚ) ^ f ≤ 2 ^ g := zpow_le_zpow_right₀ (by norm_num) h
  by_cases hlt : (scaleBack num den e).1 < (scaleBack num den e).2 * Nat.pow 2 53
  · rw [if_pos hlt]
    have hx := (scaleBack_lt_iff num hd e).1 hlt
    rcases le_total e (-1074) with h | h
    · rw [max_eq_left h]
      exact ⟨le_refl _, hx.trans_le (hmono (by omega)), .inl rfl⟩
    · rw [max_eq_right h]
      exact ⟨h, hx, .inr hlow⟩
  · rw [if_neg hlt]
    have hx : (2 : ℚ) ^ (e + 1 + 52) ≤ (num : ℚ) / den := by
      rw [show e + 1 + 52 = e + 53 by ring]
      exact not_lt.1 fun h => hlt ((scaleBack_lt_iff num hd e).2 h)
    have hx' : (num : ℚ) / den < 2 ^ (e + 1 + 53) := by
      rw [show e + 1 + 53 = (num.log2 : ℤ) - den.log2 + 1 by omega]
      exact hhigh
    rcases le_total (e + 1) (-1074) with h | h
    · rw [max_eq_left h]
      exact ⟨le_refl _, hx'.trans_le (hmono (by omega)), .inl rfl⟩
    · rw [max_eq_right h]
      exact ⟨h, hx', .inr hx⟩

/-! ## Magnitudes of doubles -/

/-- The usual form of the magnitude of a double: the mantissa has all its bits, or the unit is the least one. -/
structure Binary.Canonical (b : Binary) : Prop where
  lt : b.mantissa < 2 ^ 53
  least : -1074 ≤ b.exponent
  greatest : b.exponent ≤ 971
  normal : b.exponent = -1074 ∨ 2 ^ 52 ≤ b.mantissa

/-- How far below a magnitude, in units, the rationals lie that round to it. -/
def Binary.reach (b : Binary) : ℚ :=
  if b.narrowBelow then 1 / 4 else 1 / 2

/-- A rational lies among those that round to a magnitude; the ends belong to an even mantissa. -/
structure Binary.Around (b : Binary) (x : ℚ) : Prop where
  low : ((b.mantissa : ℚ) - b.reach) * 2 ^ b.exponent ≤ x
  high : x ≤ ((b.mantissa : ℚ) + 1 / 2) * 2 ^ b.exponent
  tie : x = ((b.mantissa : ℚ) - b.reach) * 2 ^ b.exponent ∨ x = ((b.mantissa : ℚ) + 1 / 2) * 2 ^ b.exponent →
    b.mantissa % 2 = 0

/-- What `Format.double.round` makes of a mantissa, which may need one more bit than there is room for. -/
def carried (m : ℕ) (e : ℤ) : Binary :=
  if m = 2 ^ 53 then ⟨2 ^ 52, e + 1⟩ else ⟨m, e⟩

theorem round_eq {num den : ℕ} (hn : 0 < num) (hd : 0 < den) {e : ℤ} {m : ℕ} (he : UnitOf ((num : ℚ) / den) e)
    (hm : Nearest ((num : ℚ) / den / 2 ^ e) m) :
    Format.double.round num den = if (carried m e).exponent ≤ 971 then some (carried m e) else none := by
  obtain rfl := (unit_spec hn hd).unique he
  rw [← scaleBack_div] at hm
  obtain rfl := (roundDiv_spec _ (scaleBack_den_pos num hd _)).unique hm
  rw [Format.round, if_neg hn.ne']
  rfl

theorem Binary.reach_le (b : Binary) : b.reach ≤ 1 / 2 := by
  rw [Binary.reach]
  split <;> norm_num

theorem two_zpow_add (e k : ℤ) : (2 : ℚ) ^ (e + k) = 2 ^ k * 2 ^ e := by
  rw [zpow_add₀ two_ne_zero, mul_comm]

/-- A rational around a magnitude, in units of it. -/
theorem Binary.Around.scaled {b : Binary} {x : ℚ} (h : b.Around x) :
    (b.mantissa : ℚ) - b.reach ≤ x / 2 ^ b.exponent ∧ x / 2 ^ b.exponent ≤ b.mantissa + 1 / 2 ∧
      (x / 2 ^ b.exponent = b.mantissa - b.reach ∨ x / 2 ^ b.exponent = b.mantissa + 1 / 2 → b.mantissa % 2 = 0) := by
  have hu := two_zpow_pos b.exponent
  refine ⟨(le_div_iff₀ hu).2 h.low, (div_le_iff₀ hu).2 h.high, fun ht => h.tie ?_⟩
  rwa [div_eq_iff hu.ne', div_eq_iff hu.ne'] at ht

section

variable {m : ℕ} {e : ℤ} {num den : ℕ} {y : ℚ} (hn : 0 < num) (hd : 0 < den) (hx : (num : ℚ) / den = y * 2 ^ e)
include hn hd hx

/-- A rational whose unit is that of a magnitude rounds to it if its mantissa is the nearest. -/
theorem round_in_unit (hb : (⟨m, e⟩ : Binary).Canonical) (hcase : e = -1074 ∨ 2 ^ 52 ≤ y) (hy : Nearest y m) :
    Format.double.round num den = some ⟨m, e⟩ := by
  have hu := two_zpow_pos e
  have hlt : (m : ℚ) + 1 ≤ 2 ^ 53 := by exact_mod_cast hb.lt
  have hhigh := hy.high
  have he : UnitOf ((num : ℚ) / den) e := by
    refine ⟨hb.least, ?_, hcase.imp_right fun h => ?_⟩
    · rw [hx, two_zpow_add]
      exact mul_lt_mul_of_pos_right (by norm_num at hlt ⊢; linarith) hu
    · rw [hx, two_zpow_add]
      exact mul_le_mul_of_nonneg_right (by exact_mod_cast h) hu.le
  have hm : Nearest ((num : ℚ) / den / 2 ^ e) m := by
    rwa [hx, mul_div_cancel_right₀ y hu.ne']
  rw [round_eq hn hd he hm, carried, if_neg hb.lt.ne, if_pos hb.greatest]

/-- Below a power of two the unit is half as large, and the mantissa needs one more bit than there is room for. -/
theorem round_below (hb : (⟨2 ^ 52, e⟩ : Binary).Canonical) (he : e ≠ -1074) (hlow : 2 ^ 52 - 1 / 4 ≤ y)
    (hhigh : y < 2 ^ 52) : Format.double.round num den = some ⟨2 ^ 52, e⟩ := by
  have hu := two_zpow_pos e
  have he' : UnitOf ((num : ℚ) / den) (e - 1) := by
    refine ⟨by have := hb.least; dsimp only at this; omega, ?_, .inr ?_⟩
    · rw [hx, show e - 1 + 53 = e + 52 by ring, two_zpow_add]
      exact mul_lt_mul_of_pos_right (by exact_mod_cast hhigh) hu
    · rw [hx, show e - 1 + 52 = e + 51 by ring, two_zpow_add]
      refine mul_le_mul_of_nonneg_right ?_ hu.le
      norm_num at hlow ⊢
      linarith
  have hm : Nearest ((num : ℚ) / den / 2 ^ (e - 1)) (2 ^ 53) := by
    have h2 : (num : ℚ) / den / 2 ^ (e - 1) = 2 * y := by
      rw [hx, zpow_sub_one₀ two_ne_zero]
      field_simp
    rw [h2]
    norm_num at hlow hhigh
    refine ⟨by norm_num; linarith, by norm_num; linarith, fun _ => by norm_num⟩
  rw [round_eq hn hd he' hm, carried, if_pos rfl]
  simp only [sub_add_cancel]
  exact if_pos hb.greatest

end

/-- All rationals around a magnitude round to it. -/
theorem round_of_around {b : Binary} (hb : b.Canonical) {num den : ℕ} (hn : 0 < num) (hd : 0 < den)
    (h : b.Around ((num : ℚ) / den)) : Format.double.round num den = some b := by
  obtain ⟨hlow, hhigh, htie⟩ := h.scaled
  have hreach := b.reach_le
  obtain ⟨m, e⟩ := b
  obtain ⟨y, hy⟩ : ∃ y, (num : ℚ) / den / 2 ^ e = y := ⟨_, rfl⟩
  have hx : (num : ℚ) / den = y * 2 ^ e := by rw [← hy, div_mul_cancel₀ _ (two_zpow_pos e).ne']
  dsimp only at hlow hhigh htie
  rw [hy] at hlow hhigh htie
  by_cases hcase : e = -1074 ∨ 2 ^ 52 ≤ y
  · refine round_in_unit hn hd hx hb hcase ⟨by linarith, hhigh, fun ht => htie (ht.imp_left fun ht => ?_)⟩
    linarith
  · obtain ⟨he, hy52⟩ := not_or.1 hcase
    have hy52 := not_le.1 hy52
    obtain rfl : m = 2 ^ 52 := by
      refine Nat.le_antisymm ?_ (hb.normal.resolve_left he)
      have hm : (m : ℚ) < 2 ^ 52 + 1 := by linarith
      exact Nat.lt_succ_iff.1 (by exact_mod_cast hm)
    have hnarrow : (⟨2 ^ 52, e⟩ : Binary).reach = 1 / 4 := by
      rw [Binary.reach, if_pos]
      rw [Binary.narrowBelow]
      simp only [hiddenBit, Bool.and_eq_true, decide_eq_true_eq]
      exact ⟨by norm_num, lt_of_le_of_ne hb.least fun h => he h.symm⟩
    rw [hnarrow] at hlow
    exact round_below hn hd hx hb he (by exact_mod_cast hlow) hy52

/-- Whatever a quotient rounds to is in its usual form. -/
theorem canonical_of_round {b : Binary} {num den : ℕ} (hd : 0 < den) (h : Format.double.round num den = some b) :
    b.Canonical := by
  rcases Nat.eq_zero_or_pos num with rfl | hn
  · rw [Format.round, if_pos rfl] at h
    cases h
    exact ⟨by norm_num, le_refl _, by norm_num [Format.double], .inl rfl⟩
  · have he := unit_spec hn hd
    obtain ⟨e, hu⟩ : ∃ e, Format.double.unit num den = e := ⟨_, rfl⟩
    rw [hu] at he
    have hm := roundDiv_spec (scaleBack num den e).1 (scaleBack_den_pos num hd e)
    obtain ⟨m, hr⟩ : ∃ m, roundDiv (scaleBack num den e).1 (scaleBack num den e).2 = m := ⟨_, rfl⟩
    rw [hr, scaleBack_div] at hm
    rw [round_eq hn hd he hm] at h
    split at h
    · next hle =>
      cases h
      have hup := two_zpow_pos e
      have hhigh : (m : ℚ) ≤ 2 ^ 53 + 1 / 2 := by
        have hx : (num : ℚ) / den / 2 ^ e < 2 ^ 53 := by
          rw [div_lt_iff₀ hup, ← zpow_natCast, ← two_zpow_add]
          exact he.high
        linarith [hm.low]
      have hm53 : m ≤ 2 ^ 53 := by
        have : (m : ℚ) < 2 ^ 53 + 1 := by linarith
        exact Nat.lt_succ_iff.1 (by exact_mod_cast this)
      rw [carried] at hle ⊢
      split at hle
      · next hc =>
        rw [if_pos hc]
        exact ⟨by norm_num, by have := he.least; dsimp only; omega, hle, .inr (le_refl _)⟩
      · next hc =>
        rw [if_neg hc]
        refine ⟨lt_of_le_of_ne hm53 hc, he.least, hle, he.low.imp_right fun h => ?_⟩
        have hx : (2 : ℚ) ^ 52 ≤ (num : ℚ) / den / 2 ^ e := by
          rw [le_div_iff₀ hup, ← zpow_natCast, ← two_zpow_add]
          exact h
        have : (2 : ℚ) ^ 52 < (m : ℚ) + 1 := by linarith [hm.high]
        exact Nat.lt_succ_iff.1 (by exact_mod_cast this)
    · cases h

theorem exists_round {n : ℕ} (h : n ≤ 2 ^ 64) : ∃ b, Format.double.round n 1 = some b := by
  rcases Nat.eq_zero_or_pos n with rfl | hn
  · exact ⟨_, rfl⟩
  · have he := unit_spec hn one_pos
    obtain ⟨e, hu⟩ : ∃ e, Format.double.unit n 1 = e := ⟨_, rfl⟩
    rw [hu] at he
    have hm := roundDiv_spec (scaleBack n 1 e).1 (scaleBack_den_pos n one_pos e)
    rw [scaleBack_div] at hm
    have hexp : e ≤ 12 := by
      rcases he.low with he | he
      · omega
      · have hn64 : (n : ℚ) / (1 : ℕ) ≤ 2 ^ (64 : ℤ) := by
          rw [Nat.cast_one, div_one]
          exact_mod_cast h
        have := (zpow_le_zpow_iff_right₀ (by norm_num : (1 : ℚ) < 2)).1 (he.trans hn64)
        omega
    rw [round_eq hn one_pos he hm]
    refine ⟨_, if_pos ?_⟩
    rw [carried]
    split
    · show e + 1 ≤ 971
      omega
    · show e ≤ 971
      omega

end VirtualComputer.Decimal
