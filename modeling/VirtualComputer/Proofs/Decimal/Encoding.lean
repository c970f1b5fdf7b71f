import VirtualComputer.Proofs.Decimal.Rounding

/-!
# The encoding of finite doubles

The bits of a double are its sign, its exponent and its fraction (`exists_fields`).  Unpacking a finite one and
packing it again changes nothing (`pack_unpack`), so the magnitude and the sign of a finite double give it back
(`toFloat_ofBits`).  The magnitudes of finite doubles are those in the usual form (`canonical_ofBits`,
`isFinite_toFloat`).
-/

namespace VirtualComputer.Decimal

open Float.Model (Format)
open Float.Model.UnpackedFloat

/-! ## Fields -/

/-- The bits of a double with a sign, an exponent and a fraction. -/
def fields (s : Sign) (e : BitVec 11) (f : BitVec 52) : BitVec Format.binary64.numBits :=
  packComponents Format.binary64 s e f

theorem toNat_fields (s : Sign) (e : BitVec 11) (f : BitVec 52) :
    (fields s e f).toNat = s.toBitVec.toNat * 2 ^ 63 + e.toNat * 2 ^ 52 + f.toNat := by
  rw [fields, packComponents, BitVec.toNat_append, BitVec.toNat_append, ← Nat.shiftLeft_add_eq_or_of_lt e.isLt,
    ← Nat.shiftLeft_add_eq_or_of_lt f.isLt, Nat.shiftLeft_eq, Nat.shiftLeft_eq]
  omega

/-- All bits belong to a field. -/
theorem exists_fields (b : BitVec 64) : ∃ s e f, b = fields s e f := by
  refine ⟨if b.toNat < 2 ^ 63 then .positive else .negative, BitVec.ofNat 11 (b.toNat / 2 ^ 52),
    BitVec.ofNat 52 b.toNat, BitVec.eq_of_toNat_eq ?_⟩
  have hb := b.isLt
  rw [toNat_fields, BitVec.toNat_ofNat, BitVec.toNat_ofNat]
  split
  · rw [show Sign.positive.toBitVec.toNat = 0 by rfl]
    omega
  · rw [show Sign.negative.toBitVec.toNat = 1 by rfl]
    omega

theorem unpackSign_fields (s : Sign) (e : BitVec 11) (f : BitVec 52) :
    Sign.ofBitVec (unpackSign (fields s e f)) = s := by
  have h : unpackSign (fields s e f) = s.toBitVec := by
    refine BitVec.eq_of_toNat_eq ?_
    have hs := s.toBitVec.isLt
    have he := e.isLt
    have hf := f.isLt
    have hbits : (unpackSign (fields s e f)).toNat = (fields s e f).toNat / 2 ^ 63 % 2 ^ 1 := by
      refine (BitVec.toNat_cast ..).trans ((BitVec.extractLsb_toNat ..).trans ?_)
      rw [Nat.shiftRight_eq_div_pow]
      rfl
    rw [hbits, toNat_fields]
    omega
  rw [h]
  cases s <;> rfl

theorem unpackExponent_fields (s : Sign) (e : BitVec 11) (f : BitVec 52) : unpackExponent (fields s e f) = e :=
  unpackExponent_packComponents

theorem unpackMantissa_fields (s : Sign) (e : BitVec 11) (f : BitVec 52) : unpackMantissa (fields s e f) = f :=
  unpackMantissa_packComponents

/-! ## Unpacking and packing -/

section

variable {b : BitVec Format.binary64.numBits} {s : Sign} {m : ℕ} {x : ℤ}

theorem unpack_zero (he : unpackExponent b = 0#11) (hf : unpackMantissa b = 0#52)
    (hs : Sign.ofBitVec (unpackSign b) = s) : unpack Format.binary64 b = .zero s := by
  subst hs
  exact (if_neg (by rw [he]; decide)).trans ((if_pos he).trans (dif_pos hf))

theorem unpack_subnormal (he : unpackExponent b = 0#11) (hf : unpackMantissa b ≠ 0#52)
    (hs : Sign.ofBitVec (unpackSign b) = s) (hm : (unpackMantissa b).toNat = m)
    (hx : ((unpackExponent b).toNat : ℤ) - 1075 + 1 = x) : ∃ h, unpack Format.binary64 b = .finite s m x h := by
  subst hs hm hx
  exact ⟨_, (if_neg (by rw [he]; decide)).trans ((if_pos he).trans (dif_neg hf))⟩

theorem unpack_normal (he : unpackExponent b ≠ -1#11) (h0 : unpackExponent b ≠ 0#11)
    (hs : Sign.ofBitVec (unpackSign b) = s) (hm : (1#1 ++ unpackMantissa b).toNat = m)
    (hx : ((unpackExponent b).toNat : ℤ) - 1075 = x) : ∃ h, unpack Format.binary64 b = .finite s m x h := by
  subst hs hm hx
  exact ⟨_, (if_neg he).trans (if_neg h0)⟩

theorem not_isFinite_unpack (he : unpackExponent b = -1#11) : (unpack Format.binary64 b).isFinite = false := by
  rw [show unpack Format.binary64 b = _ from if_pos he]
  split <;> rfl

end

/-- A finite double taken apart. -/
theorem unpack_fields (s : Sign) {e : BitVec 11} (f : BitVec 52) (he : e ≠ -1#11) :
    (e = 0#11 ∧ f = 0#52 ∧ unpack Format.binary64 (fields s e f) = .zero s) ∨
    (e = 0#11 ∧ f ≠ 0#52 ∧ ∃ h, unpack Format.binary64 (fields s e f) = .finite s f.toNat (-1074) h) ∨
    (e ≠ 0#11 ∧ ∃ h, unpack Format.binary64 (fields s e f) = .finite s (2 ^ 52 + f.toNat) (e.toNat - 1075) h) := by
  have hs := unpackSign_fields s e f
  have hx := unpackExponent_fields s e f
  have hm := unpackMantissa_fields s e f
  by_cases h0 : e = 0#11
  · by_cases hf : f = 0#52
    · exact .inl ⟨h0, hf, unpack_zero (hx.trans h0) (hm.trans hf) hs⟩
    · refine .inr (.inl ⟨h0, hf, ?_⟩)
      refine unpack_subnormal (hx.trans h0) (fun h => hf (hm.symm.trans h)) hs (congrArg BitVec.toNat hm) ?_
      rw [hx, h0]
      rfl
  · refine .inr (.inr ⟨h0, ?_⟩)
    refine unpack_normal (fun h => he (hx.symm.trans h)) (fun h => h0 (hx.symm.trans h)) hs ?_ (by rw [hx])
    rw [hm, BitVec.toNat_append, ← Nat.shiftLeft_add_eq_or_of_lt f.isLt]
    rfl

theorem pack_finite (s : Sign) (m : ℕ) (x : ℤ) (h : 0 < m) : pack Format.binary64 (.finite s m x h) =
    if 2 ^ 11 ≤ (x + 1023 + 52).toNat + 1 then packedInfinity Format.binary64 s
    else if m.log2 + 1 = 53 then fields s (BitVec.ofNat 11 (x + 1023 + 52).toNat) (BitVec.ofNat 52 m)
    else fields s 0#11 (BitVec.ofNat 52 m) := rfl

theorem pack_subnormal (s : Sign) (f : BitVec 52) (h : 0 < f.toNat) :
    pack Format.binary64 (.finite s f.toNat (-1074) h) = fields s 0#11 f := by
  have hlog : f.toNat.log2 < 52 := (Nat.log2_lt h.ne').2 f.isLt
  rw [pack_finite, if_neg (by decide), if_neg (by omega), BitVec.ofNat_toNat, BitVec.setWidth_eq]

theorem pack_normal (s : Sign) {e : BitVec 11} (f : BitVec 52) (he : e ≠ -1#11) (h : 0 < 2 ^ 52 + f.toNat) :
    pack Format.binary64 (.finite s (2 ^ 52 + f.toNat) (e.toNat - 1075) h) = fields s e f := by
  have hf := f.isLt
  have hlt := e.isLt
  have hlog : (2 ^ 52 + f.toNat).log2 = 52 := (Nat.log2_eq_iff h.ne').2 ⟨by omega, by omega⟩
  have hmax : e.toNat ≠ 2047 := fun h => he (BitVec.eq_of_toNat_eq h)
  have hbiased : ((e.toNat : ℤ) - 1075 + 1023 + 52).toNat = e.toNat := by omega
  have hm : BitVec.ofNat 52 (2 ^ 52 + f.toNat) = f := by
    refine BitVec.eq_of_toNat_eq ?_
    rw [BitVec.toNat_ofNat]
    omega
  rw [pack_finite, hbiased, if_neg (by omega), if_pos (by rw [hlog]), BitVec.ofNat_toNat, BitVec.setWidth_eq, hm]

/-- Packing what has been unpacked; negation only changes the sign. -/
theorem pack_unpack (s : Sign) {e : BitVec 11} (f : BitVec 52) (he : e ≠ -1#11) :
    pack Format.binary64 (unpack Format.binary64 (fields s e f)) = fields s e f ∧
      pack Format.binary64 (unpack Format.binary64 (fields s e f)).neg = fields (-s) e f ∧
      (unpack Format.binary64 (fields s e f)).isFinite = true := by
  rcases unpack_fields s f he with ⟨h0, hf, h⟩ | ⟨h0, -, hpos, h⟩ | ⟨-, hpos, h⟩
  · rw [h, h0, hf]
    exact ⟨rfl, rfl, rfl⟩
  · rw [h, h0]
    exact ⟨pack_subnormal s f hpos, pack_subnormal (-s) f hpos, rfl⟩
  · rw [h]
    exact ⟨pack_normal s f he hpos, pack_normal (-s) f he hpos, rfl⟩

/-! ## Doubles -/

theorem float_ext {x y : Float} (h : x.toBits = y.toBits) : x = y := by
  obtain ⟨⟨b, hb⟩⟩ := x
  obtain ⟨⟨c, hc⟩⟩ := y
  obtain rfl : b = c := h
  rfl

/-- A double is finite exactly when not all bits of its exponent are set. -/
theorem isFinite_iff {x : Float} {s : Sign} {e : BitVec 11} {f : BitVec 52} (h : x.toBits.toBitVec = fields s e f) :
    x.isFinite ↔ e ≠ -1#11 := by
  have hx : x.isFinite = (unpack Format.binary64 x.toBits.toBitVec).isFinite := rfl
  rw [hx, h]
  constructor
  · rintro hf rfl
    rw [not_isFinite_unpack (unpackExponent_fields s _ f)] at hf
    cases hf
  · exact fun he => (pack_unpack s f he).2.2

theorem toBits_ofBits {u : UInt64} {s : Sign} {e : BitVec 11} {f : BitVec 52} (hu : u.toBitVec = fields s e f)
    (he : e ≠ -1#11) : (Float.ofBits u).toBits = u := by
  have h : (Float.ofBits u).toBits = UInt64.ofBitVec (pack Format.binary64 (unpack Format.binary64 u.toBitVec)) := rfl
  rw [h, hu, (pack_unpack s f he).1, ← hu]

theorem toBits_neg {x : Float} {s : Sign} {e : BitVec 11} {f : BitVec 52} (hx : x.toBits.toBitVec = fields s e f)
    (he : e ≠ -1#11) : (-x).toBits.toBitVec = fields (-s) e f := by
  have h : (-x).toBits = UInt64.ofBitVec (pack Format.binary64 (unpack Format.binary64 x.toBits.toBitVec).neg) := rfl
  rw [h, hx, (pack_unpack s f he).2.1]

/-! ## Magnitudes -/

/-- The magnitude of a double with some fields. -/
def ofFields (e : BitVec 11) (f : BitVec 52) : Binary :=
  if e.toNat = 0 then ⟨f.toNat, -1074⟩ else ⟨2 ^ 52 + f.toNat, e.toNat - 1075⟩

theorem ofBits_fields {u : UInt64} {s : Sign} {e : BitVec 11} {f : BitVec 52} (hu : u.toBitVec = fields s e f) :
    Binary.ofBits u = ofFields e f := by
  have hn : u.toNat = s.toBitVec.toNat * 2 ^ 63 + e.toNat * 2 ^ 52 + f.toNat := by
    rw [← toNat_fields, ← hu]
    rfl
  have he := e.isLt
  have hf := f.isLt
  have h1 : ((u >>> 52) &&& 0x7FF).toNat = e.toNat := by
    rw [UInt64.toNat_and, UInt64.toNat_shiftRight, show (0x7FF : UInt64).toNat = 2 ^ 11 - 1 by rfl,
      Nat.and_two_pow_sub_one_eq_mod, show (52 : UInt64).toNat % 64 = 52 by rfl, Nat.shiftRight_eq_div_pow, hn]
    omega
  have h2 : (u &&& 0xFFFFFFFFFFFFF).toNat = f.toNat := by
    rw [UInt64.toNat_and, show (0xFFFFFFFFFFFFF : UInt64).toNat = 2 ^ 52 - 1 by rfl,
      Nat.and_two_pow_sub_one_eq_mod, hn]
    omega
  rw [Binary.ofBits, h1, h2]
  rfl

theorem toBits_ofFields (e : BitVec 11) (f : BitVec 52) : (ofFields e f).toBits.toBitVec = fields .positive e f := by
  have he := e.isLt
  have hf := f.isLt
  refine BitVec.eq_of_toNat_eq ?_
  rw [toNat_fields, show Sign.positive.toBitVec.toNat = 0 by rfl, UInt64.toNat_toBitVec, Binary.toBits, ofFields]
  by_cases h0 : e.toNat = 0
  · rw [if_pos h0, if_pos (show f.toNat < hiddenBit by exact hf), h0]
    exact (UInt64.toNat_ofNat').trans (by dsimp only; omega)
  · rw [if_neg h0, if_neg (show ¬ 2 ^ 52 + f.toNat < hiddenBit by exact Nat.not_lt.2 (Nat.le_add_right _ _))]
    refine (UInt64.toNat_ofNat').trans ?_
    dsimp only [hiddenBit]
    omega

theorem canonical_ofFields {e : BitVec 11} (f : BitVec 52) (he : e ≠ -1#11) : (ofFields e f).Canonical := by
  have hf := f.isLt
  have hlt := e.isLt
  have hmax : e.toNat ≠ 2047 := fun h => he (BitVec.eq_of_toNat_eq h)
  rw [ofFields]
  split
  · exact ⟨by dsimp only; omega, le_refl _, by dsimp only; omega, .inl rfl⟩
  · exact ⟨by dsimp only; omega, by dsimp only; omega, by dsimp only; omega, .inr (Nat.le_add_right _ _)⟩

/-- Every magnitude in its usual form is that of some fields. -/
theorem exists_ofFields {b : Binary} (hb : b.Canonical) : ∃ e f, e ≠ -1#11 ∧ b = ofFields e f := by
  have hlt := hb.lt
  have hle := hb.greatest
  obtain ⟨m, e⟩ := b
  dsimp only at hlt hle
  by_cases hm : m < 2 ^ 52
  · obtain rfl : e = -1074 := hb.normal.resolve_right (Nat.not_le.2 hm)
    refine ⟨0#11, BitVec.ofNat 52 m, by decide, ?_⟩
    rw [ofFields, if_pos (show (0#11).toNat = 0 by rfl), BitVec.toNat_ofNat, Nat.mod_eq_of_lt hm]
  · have hleast := hb.least
    dsimp only at hleast
    have he : (BitVec.ofNat 11 (e + 1075).toNat).toNat = (e + 1075).toNat := by
      rw [BitVec.toNat_ofNat, Nat.mod_eq_of_lt (by omega)]
    refine ⟨BitVec.ofNat 11 (e + 1075).toNat, BitVec.ofNat 52 (m - 2 ^ 52), fun h => ?_, ?_⟩
    · have h := congrArg BitVec.toNat h
      rw [he, show (-1#11).toNat = 2047 by rfl] at h
      omega
    · rw [ofFields, he, if_neg (by omega), BitVec.toNat_ofNat, Nat.mod_eq_of_lt (by omega)]
      rw [Binary.mk.injEq]
      exact ⟨by omega, by omega⟩

/-! ## Doubles and their magnitudes -/

variable {x : Float}

theorem finite_fields (h : x.isFinite) : ∃ s e f, e ≠ -1#11 ∧ x.toBits.toBitVec = fields s e f := by
  obtain ⟨s, e, f, hx⟩ := exists_fields x.toBits.toBitVec
  exact ⟨s, e, f, (isFinite_iff hx).1 h, hx⟩

theorem canonical_ofBits (h : x.isFinite) : (Binary.ofBits x.toBits).Canonical := by
  obtain ⟨s, e, f, he, hx⟩ := finite_fields h
  rw [ofBits_fields hx]
  exact canonical_ofFields f he

/-- The sign bit of a double. -/
theorem signBit_fields {u : UInt64} {s : Sign} {e : BitVec 11} {f : BitVec 52} (hu : u.toBitVec = fields s e f) :
    u >>> 63 = 1 ↔ s = .negative := by
  have hn : u.toNat = s.toBitVec.toNat * 2 ^ 63 + e.toNat * 2 ^ 52 + f.toNat := by
    rw [← toNat_fields, ← hu]
    rfl
  have he := e.isLt
  have hf := f.isLt
  rw [← UInt64.toNat_inj, UInt64.toNat_shiftRight, show (63 : UInt64).toNat % 64 = 63 by rfl,
    Nat.shiftRight_eq_div_pow, hn, show (1 : UInt64).toNat = 1 by rfl]
  cases s with
  | negative => exact ⟨fun _ => rfl, fun _ => by rw [show Sign.negative.toBitVec.toNat = 1 by rfl]; omega⟩
  | positive =>
    rw [show Sign.positive.toBitVec.toNat = 0 by rfl]
    exact ⟨fun h => by omega, fun h => nomatch h⟩

theorem toBits_toFloat {e : BitVec 11} (f : BitVec 52) (he : e ≠ -1#11) (negative : Bool) :
    ((ofFields e f).toFloat negative).toBits.toBitVec = fields (if negative then .negative else .positive) e f := by
  have hu := toBits_ofFields e f
  have hb := toBits_ofBits hu he
  have hx : (Float.ofBits (ofFields e f).toBits).toBits.toBitVec = fields .positive e f := by rw [hb, hu]
  cases negative with
  | false => exact hx
  | true =>
    have hneg : (ofFields e f).toFloat true = -Float.ofBits (ofFields e f).toBits := rfl
    rw [hneg, toBits_neg hx he]
    rfl

/-- Every magnitude in its usual form is that of a finite double. -/
theorem isFinite_toFloat {b : Binary} (hb : b.Canonical) (negative : Bool) : (b.toFloat negative).isFinite := by
  obtain ⟨e, f, he, rfl⟩ := exists_ofFields hb
  exact (isFinite_iff (toBits_toFloat f he negative)).2 he

/-- A finite double is given back by its magnitude and its sign. -/
theorem toFloat_ofBits (h : x.isFinite) : (Binary.ofBits x.toBits).toFloat (x.toBits >>> 63 = 1) = x := by
  obtain ⟨s, e, f, he, hx⟩ := finite_fields h
  have hs : (if decide (x.toBits >>> 63 = 1) then Sign.negative else Sign.positive) = s := by
    by_cases hbit : x.toBits >>> 63 = 1
    · rw [if_pos (decide_eq_true hbit), (signBit_fields hx).1 hbit]
    · rw [if_neg fun h => hbit (of_decide_eq_true h)]
      cases s with
      | negative => exact absurd ((signBit_fields hx).2 rfl) hbit
      | positive => rfl
  refine float_ext (UInt64.toBitVec_inj.1 ?_)
  rw [ofBits_fields hx, toBits_toFloat f he, hs, hx]

/-- A whole number of a word is nearest to a finite double. -/
theorem isFinite_ofInt {i : ℤ} (h : i.natAbs ≤ 2 ^ 64) : (ofInt i).isFinite := by
  obtain ⟨b, hb⟩ := exists_round h
  rw [ofInt, hb]
  exact isFinite_toFloat (canonical_of_round one_pos hb) _

end VirtualComputer.Decimal
