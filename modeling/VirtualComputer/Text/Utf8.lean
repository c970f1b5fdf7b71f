import VirtualComputer.Decimal.Numeral

/-!
# Bytes of texts

`Utf8.encode` gives the bytes of a text.  `Utf8.decode` reads them back in one pass, and says where
bytes that are not those of any text go wrong first.
-/

namespace VirtualComputer

abbrev Bytes := List UInt8

namespace Utf8

/-- The bytes of a text. -/
def encode (s : String) : Bytes :=
  s.toList.flatMap String.utf8EncodeChar

/-! ## Defects -/

/-- The first place where bytes are not those of a text. -/
inductive Defect where
  /-- The bytes at a place start no character; so many of them would have started one. -/
  | invalid (length place : Nat)
  /-- The bytes end inside the character that starts at a place. -/
  | incomplete (place : Nat)
  deriving DecidableEq, Repr

/-- The text of a defect. -/
def Defect.message : Defect → String
  | .invalid length place =>
    "invalid utf-8 sequence of " ++ Decimal.integerText length ++ " bytes from index " ++
      Decimal.integerText place
  | .incomplete place =>
    "incomplete utf-8 byte sequence from index " ++ Decimal.integerText place

/-! ## Decoding -/

/-- A character part way through: its number so far, how many bytes have been read and are still
to come, and the bounds on the next one. -/
structure Unfinished where
  value : Nat
  seen : Nat
  owed : Nat
  low : Nat
  high : Nat

structure Decoder where
  /-- The characters read, last first. -/
  chars : List Char
  /-- Where the current character starts. -/
  place : Nat
  current : Option Unfinished

/-- The characters that a first byte may start.  The bounds on the second byte leave out numbers
that need fewer bytes, halves of pairs, and numbers beyond the last character. -/
def lead? (b : Nat) : Option Unfinished :=
  if b < 0x80 then some ⟨b, 1, 0, 0x80, 0xBF⟩
  else if 0xC2 ≤ b ∧ b ≤ 0xDF then some ⟨b - 0xC0, 1, 1, 0x80, 0xBF⟩
  else if b = 0xE0 then some ⟨0, 1, 2, 0xA0, 0xBF⟩
  else if b = 0xED then some ⟨b - 0xE0, 1, 2, 0x80, 0x9F⟩
  else if 0xE1 ≤ b ∧ b ≤ 0xEF then some ⟨b - 0xE0, 1, 2, 0x80, 0xBF⟩
  else if b = 0xF0 then some ⟨0, 1, 3, 0x90, 0xBF⟩
  else if 0xF1 ≤ b ∧ b ≤ 0xF3 then some ⟨b - 0xF0, 1, 3, 0x80, 0xBF⟩
  else if b = 0xF4 then some ⟨4, 1, 3, 0x80, 0x8F⟩
  else none

namespace Decoder

/-- Goes on with a character, which is complete if no byte is owed. -/
def advance (d : Decoder) (p : Unfinished) : Decoder :=
  if p.owed = 0 then ⟨Char.ofNat p.value :: d.chars, d.place + p.seen, none⟩
  else { d with current := some p }

/-- Reads one byte. -/
def step (d : Decoder) (byte : UInt8) : Except Defect Decoder :=
  let b := byte.toNat
  match d.current with
  | none =>
    match lead? b with
    | some p => .ok (d.advance p)
    | none => .error (.invalid 1 d.place)
  | some p =>
    if p.low ≤ b ∧ b ≤ p.high then
      .ok (d.advance ⟨p.value * 64 + (b - 0x80), p.seen + 1, p.owed - 1, 0x80, 0xBF⟩)
    else .error (.invalid p.seen d.place)

/-- The text that has been read, if it ends between characters. -/
def finish (d : Decoder) : Except Defect String :=
  match d.current with
  | none => .ok (String.ofList d.chars.reverse)
  | some _ => .error (.incomplete d.place)

end Decoder

/-- The text of bytes, or the first defect in them. -/
def decode (bytes : Bytes) : Except Defect String := do
  (← bytes.foldlM Decoder.step ⟨[], 0, none⟩).finish

end Utf8

end VirtualComputer
