import VirtualComputer.Text.Utf8

/-!
# Texts are read back from their bytes

A decoder between characters takes in the bytes of a character and is between characters again (`chars_encodeChar`),
so the bytes of a text decode to the text (`decode_encode`).
-/

namespace VirtualComputer.Utf8

open Decoder

/-! ## Single bytes -/

theorem toNat_byte {n : Nat} (h : n < 256) : (UInt8.ofNat n).toNat = n := by
  rw [UInt8.toNat_ofNat', Nat.mod_eq_of_lt h]

/-- The first byte of a character. -/
theorem step_lead {chars : List Char} {place n : Nat} {p : Unfinished} (hn : n < 256) (h : lead? n = some p) :
    step ⟨chars, place, none⟩ (UInt8.ofNat n) = .ok (advance ⟨chars, place, none⟩ p) := by
  unfold step
  simp only [toNat_byte hn, h]

/-- A further byte of a character carries six of its bits. -/
theorem step_further {chars : List Char} {place bits : Nat} {p : Unfinished} (hb : bits < 64)
    (hl : p.low ≤ bits + 0x80) (hh : bits + 0x80 ≤ p.high) :
    step ⟨chars, place, some p⟩ (UInt8.ofNat (bits + 0x80)) =
      .ok (advance ⟨chars, place, some p⟩ ⟨p.value * 64 + bits, p.seen + 1, p.owed - 1, 0x80, 0xBF⟩) := by
  unfold step
  simp only [toNat_byte (show bits + 0x80 < 256 by omega), hl, hh, and_self, if_true, Nat.add_sub_cancel]

/-- The further bytes of a character, of which the first may have bounds of its own, complete it. -/
theorem further_bytes {chars : List Char} {place : Nat} : ∀ (rest : List Nat) {bits : Nat} {p : Unfinished},
    p.owed = rest.length + 1 → bits < 64 → p.low ≤ bits + 0x80 → bits + 0x80 ≤ p.high → (∀ b ∈ rest, b < 64) →
      ∃ place', ((bits :: rest).map fun b => UInt8.ofNat (b + 0x80)).foldlM step ⟨chars, place, some p⟩ =
        .ok ⟨Char.ofNat ((bits :: rest).foldl (fun v b => v * 64 + b) p.value) :: chars, place', none⟩
  | [], bits, p, ho, hb, hl, hh, _ => by
    refine ⟨place + (p.seen + 1), ?_⟩
    rw [List.map_cons, List.foldlM_cons, step_further hb hl hh, ho]
    rfl
  | next :: rest, bits, p, ho, hb, hl, hh, hr => by
    obtain ⟨hn, hr⟩ := List.forall_mem_cons.1 hr
    obtain ⟨place', h⟩ := @further_bytes chars place rest next
      ⟨p.value * 64 + bits, p.seen + 1, rest.length + 1, 0x80, 0xBF⟩ rfl hn (by dsimp only; omega)
      (by dsimp only; omega) hr
    refine ⟨place', ?_⟩
    rw [List.map_cons, List.foldlM_cons, step_further hb hl hh, ho]
    exact h

/-- A lead byte and the further bytes that it asks for are one character. -/
theorem all_bytes {chars : List Char} {place n bits v : Nat} {p : Unfinished} {rest : List Nat} (hn : n < 256)
    (hlead : lead? n = some p) (ho : p.owed = rest.length + 1) (hl : p.low ≤ bits + 0x80) (hh : bits + 0x80 ≤ p.high)
    (hbits : ∀ b ∈ bits :: rest, b < 64) (hv : (bits :: rest).foldl (fun v b => v * 64 + b) p.value = v) :
    ∃ place', (UInt8.ofNat n :: (bits :: rest).map fun b => UInt8.ofNat (b + 0x80)).foldlM step ⟨chars, place, none⟩ =
      .ok ⟨Char.ofNat v :: chars, place', none⟩ := by
  obtain ⟨hb, hr⟩ := List.forall_mem_cons.1 hbits
  obtain ⟨place', h⟩ := @further_bytes chars place rest bits p ho hb hl hh hr
  have hwait : advance ⟨chars, place, none⟩ p = ⟨chars, place, some p⟩ := by
    rw [advance, ho]
    rfl
  refine ⟨place', ?_⟩
  rw [List.foldlM_cons, step_lead hn hlead, hwait, ← hv]
  exact h

/-! ## Characters -/

/-- The lead byte of a character of three bytes leaves room for all of them. -/
theorem lead_three {v : Nat} (hv : 0x7FF < v) (hb : v ≤ 0xFFFF) (hs : v < 0xD800 ∨ 0xDFFF < v) :
    ∃ low high, lead? (v / 4096 % 16 + 0xE0) = some ⟨v / 4096, 1, 2, low, high⟩ ∧
      low ≤ v / 64 % 64 + 0x80 ∧ v / 64 % 64 + 0x80 ≤ high := by
  have hlead : v / 4096 % 16 = v / 4096 := Nat.mod_eq_of_lt (by omega)
  rw [hlead]
  unfold lead?
  rw [if_neg (by omega), if_neg (by omega)]
  by_cases h0 : v / 4096 = 0
  · rw [h0]
    exact ⟨0xA0, 0xBF, rfl, by omega, by omega⟩
  rw [if_neg (by omega)]
  by_cases h13 : v / 4096 = 13
  · rw [h13]
    exact ⟨0x80, 0x9F, rfl, by omega, by omega⟩
  rw [if_neg (by omega), if_pos (by omega), Nat.add_sub_cancel]
  exact ⟨0x80, 0xBF, rfl, by omega, by omega⟩

/-- The lead byte of a character of four bytes leaves room for all of them. -/
theorem lead_four {v : Nat} (hv : 0xFFFF < v) (hb : v < 0x110000) :
    ∃ low high, lead? (v / 262144 % 8 + 0xF0) = some ⟨v / 262144, 1, 3, low, high⟩ ∧
      low ≤ v / 4096 % 64 + 0x80 ∧ v / 4096 % 64 + 0x80 ≤ high := by
  have hlead : v / 262144 % 8 = v / 262144 := Nat.mod_eq_of_lt (by omega)
  rw [hlead]
  unfold lead?
  rw [if_neg (by omega), if_neg (by omega), if_neg (by omega), if_neg (by omega), if_neg (by omega)]
  by_cases h0 : v / 262144 = 0
  · rw [h0]
    exact ⟨0x90, 0xBF, rfl, by omega, by omega⟩
  rw [if_neg (by omega)]
  by_cases h4 : v / 262144 = 4
  · rw [h4]
    exact ⟨0x80, 0x8F, rfl, by omega, by omega⟩
  rw [if_pos (by omega), Nat.add_sub_cancel]
  exact ⟨0x80, 0xBF, rfl, by omega, by omega⟩

/-- The lead byte of a character of two bytes. -/
theorem lead_two {v : Nat} (hv : 0x7F < v) (hb : v ≤ 0x7FF) :
    lead? (v / 64 % 32 + 0xC0) = some ⟨v / 64 % 32, 1, 1, 0x80, 0xBF⟩ := by
  unfold lead?
  rw [if_neg (by omega), if_pos (by omega), Nat.add_sub_cancel]

/-- A decoder takes in a character by its bytes. -/
theorem chars_encodeChar (c : Char) (chars : List Char) (place : Nat) :
    ∃ place', (String.utf8EncodeChar c).foldlM step ⟨chars, place, none⟩ = .ok ⟨c :: chars, place', none⟩ := by
  obtain ⟨v, hv⟩ : ∃ v, v = c.val.toNat := ⟨_, rfl⟩
  have hc : Char.ofNat v = c := by
    rw [hv]
    exact Char.ofNat_toNat c
  have hvalid : v < 0xD800 ∨ 0xDFFF < v ∧ v < 0x110000 := by
    rw [hv]
    exact c.valid
  have hbits (n : Nat) : n % 64 < 64 := Nat.mod_lt n (by decide)
  unfold String.utf8EncodeChar
  rw [← hv]
  dsimp only
  by_cases h1 : v ≤ 0x7F
  · have hlead : lead? v = some ⟨v, 1, 0, 0x80, 0xBF⟩ := if_pos (by omega)
    refine ⟨place + 1, ?_⟩
    rw [if_pos h1, List.foldlM_cons, step_lead (by omega) hlead, ← hc]
    rfl
  rw [if_neg h1, ← hc]
  by_cases h2 : v ≤ 0x7FF
  · have hvalue : v / 64 % 32 * 64 + v % 64 = v := by omega
    rw [if_pos h2]
    exact all_bytes (by omega) (lead_two (by omega) h2) rfl (by dsimp only; omega) (by dsimp only; omega)
      (List.forall_mem_singleton.2 (hbits v)) hvalue
  rw [if_neg h2]
  by_cases h3 : v ≤ 0xFFFF
  · have hvalue : (v / 4096 * 64 + v / 64 % 64) * 64 + v % 64 = v := by omega
    obtain ⟨low, high, hlead, hl, hh⟩ := lead_three (v := v) (by omega) h3 (by omega)
    rw [if_pos h3]
    exact all_bytes (by omega) hlead rfl hl hh
      (List.forall_mem_cons.2 ⟨hbits _, List.forall_mem_singleton.2 (hbits v)⟩) hvalue
  · have hvalue : ((v / 262144 * 64 + v / 4096 % 64) * 64 + v / 64 % 64) * 64 + v % 64 = v := by omega
    obtain ⟨low, high, hlead, hl, hh⟩ := lead_four (v := v) (by omega) (by omega)
    rw [if_neg h3]
    exact all_bytes (by omega) hlead rfl hl hh
      (List.forall_mem_cons.2 ⟨hbits _, List.forall_mem_cons.2 ⟨hbits _, List.forall_mem_singleton.2 (hbits v)⟩⟩) hvalue

/-! ## Texts -/

theorem chars_encode : ∀ (cs chars : List Char) (place : Nat), ∃ place',
    (cs.flatMap String.utf8EncodeChar).foldlM step ⟨chars, place, none⟩ = .ok ⟨cs.reverse ++ chars, place', none⟩
  | [], _, place => ⟨place, rfl⟩
  | c :: cs, chars, place => by
    obtain ⟨middle, hc⟩ := chars_encodeChar c chars place
    obtain ⟨last, hcs⟩ := chars_encode cs (c :: chars) middle
    refine ⟨last, ?_⟩
    rw [List.flatMap_cons, List.foldlM_append, hc, List.reverse_cons, List.append_assoc]
    exact hcs

/-- The bytes of a text are read as the text. -/
theorem decode_encode (s : String) : decode (encode s) = .ok s := by
  obtain ⟨place, h⟩ := chars_encode s.toList [] 0
  rw [decode, encode, h, List.append_nil]
  show Except.ok (String.ofList s.toList.reverse.reverse) = _
  rw [List.reverse_reverse, String.ofList_toList]

end VirtualComputer.Utf8
