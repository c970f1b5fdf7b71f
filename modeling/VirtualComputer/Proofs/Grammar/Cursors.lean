import Mathlib.Data.List.DropRight
import VirtualComputer.Grammar.Matcher

/-!
# Cursors and matches

A cursor that moves on in its text (`Cursor.Reaches`) is at the place that the text before it gives
(`Cursor.origin_advanceAll`).  Skipping blanks and comments moves on (`Cursor.reaches_skipFrom`), and what it leaves
depends on the text alone (`skipped`).  What a composed matcher matches follows from what its parts match, whatever
places they report (`Matcher.bind_matched`, `Matcher.orElse_matched`, `Matcher.rounds_matched`).
-/

namespace VirtualComputer.Grammar

/-! ## Cursors -/

namespace Cursor

/-- The second cursor is further on in the same text, or where the first one is. -/
def Reaches (c c' : Cursor) : Prop :=
  ∃ taken, c.rest = taken ++ c'.rest ∧ c'.place = c.place.advanceAll taken

variable {a b c : Cursor}

theorem Reaches.refl (c : Cursor) : c.Reaches c := ⟨[], rfl, rfl⟩

theorem Reaches.trans (h : a.Reaches b) (h' : b.Reaches c) : a.Reaches c := by
  obtain ⟨t, hrest, hplace⟩ := h
  obtain ⟨t', hrest', hplace'⟩ := h'
  refine ⟨t ++ t', ?_, ?_⟩
  · rw [hrest, hrest', List.append_assoc]
  · rw [hplace', hplace, Place.advanceAll, Place.advanceAll, Place.advanceAll, List.foldl_append]

/-- Every character takes a byte at least. -/
theorem le_offset_advanceAll (p : Place) (cs : List Char) : p.offset + cs.length ≤ (p.advanceAll cs).offset := by
  induction cs generalizing p with
  | nil => exact Nat.le_refl _
  | cons c cs ih =>
    have hoffset : (p.advance c).offset = p.offset + c.utf8Size := by
      rw [Place.advance]
      split <;> rfl
    have hle : (p.advance c).offset + cs.length ≤ (p.advanceAll (c :: cs)).offset := ih (p.advance c)
    have hsize := c.utf8Size_pos
    rw [List.length_cons]
    omega

theorem Reaches.offset_le (h : a.Reaches b) : a.place.offset ≤ b.place.offset := by
  obtain ⟨t, -, hplace⟩ := h
  have hle := le_offset_advanceAll a.place t
  rw [hplace]
  omega

/-- With less of the text left the place is further on. -/
theorem Reaches.offset_lt (h : a.Reaches b) (hless : b.rest.length < a.rest.length) :
    a.place.offset < b.place.offset := by
  obtain ⟨t, hrest, hplace⟩ := h
  have hle := le_offset_advanceAll a.place t
  rw [hrest, List.length_append] at hless
  rw [hplace]
  omega

theorem Reaches.length_le (h : a.Reaches b) : b.rest.length ≤ a.rest.length := by
  obtain ⟨t, hrest, -⟩ := h
  rw [hrest, List.length_append]
  omega

/-- The place behind a text. -/
theorem origin_advanceAll (cs : List Char) : Place.origin.advanceAll cs =
    ⟨(String.ofList cs).utf8ByteSize, cs.count '\n', (cs.rtakeWhile (· ≠ '\n')).length⟩ := by
  induction cs using List.reverseRecOn with
  | nil => rfl
  | append_singleton cs c ih =>
    have hsize : (String.ofList (cs ++ [c])).utf8ByteSize = (String.ofList cs).utf8ByteSize + c.utf8Size := by
      rw [String.ofList_append, String.utf8ByteSize_append, ← String.singleton_eq_ofList, String.utf8ByteSize_singleton]
    rw [Place.advanceAll, List.foldl_append] at *
    rw [ih, hsize]
    simp only [List.foldl_cons, List.foldl_nil, Place.advance, List.count_append]
    split
    · next hc =>
      subst hc
      rw [List.rtakeWhile_concat_neg]
      · rfl
      · decide
    · next hc =>
      rw [List.rtakeWhile_concat_pos _ _ _ (by simpa using hc), List.length_append, List.count_singleton,
        if_neg (by simpa using hc)]
      rfl

/-- Going over a piece of the text is moving on. -/
theorem reaches_advanceAll (p : Place) (cs rest : List Char) :
    Cursor.Reaches ⟨p, cs ++ rest⟩ ⟨p.advanceAll cs, rest⟩ :=
  ⟨cs, rfl, rfl⟩

theorem reaches_skipFrom (k : Skipping) (p : Place) (cs : List Char) : Cursor.Reaches ⟨p, cs⟩ (skipFrom k p cs) := by
  fun_induction skipFrom k p cs with
  | case1 p cs ih => exact (reaches_advanceAll p ['/', '/'] cs).trans ih
  | case2 p cs _ ih => exact (reaches_advanceAll p ['/', '*'] cs).trans ih
  | case3 p cs _ => exact .refl _
  | case4 p c cs _ _ _ ih => exact (reaches_advanceAll p [c] cs).trans ih
  | case5 p c cs _ _ _ => exact .refl _
  | case6 p cs ih => exact (reaches_advanceAll p ['\n'] cs).trans ih
  | case7 p c cs _ ih => exact (reaches_advanceAll p [c] cs).trans ih
  | case8 p cs ih => exact (reaches_advanceAll p ['*', '/'] cs).trans ih
  | case9 p c cs _ ih => exact (reaches_advanceAll p [c] cs).trans ih
  | case10 => exact .refl _

end Cursor

/-! ## Blanks -/

/-- What is left of a text behind blanks and comments. -/
def skipped (cs : List Char) : List Char :=
  (skipFrom .blanks .origin cs).rest

theorem skipFrom_rest (k : Skipping) (p q : Place) (cs : List Char) :
    (skipFrom k p cs).rest = (skipFrom k q cs).rest := by
  fun_induction skipFrom k p cs generalizing q with
  | case1 p cs ih => exact ih _
  | case2 p cs hclosed ih =>
    rw [skipFrom, if_pos hclosed]
    exact ih _
  | case3 p cs hopen => rw [skipFrom, if_neg hopen]
  | case4 p c cs hline hblock hblank ih =>
    rw [skipFrom, if_pos hblank]
    · exact ih _
    · exact hline
    · exact hblock
  | case5 p c cs hline hblock hblank =>
    rw [skipFrom, if_neg hblank]
    · exact hline
    · exact hblock
  | case6 p cs ih => exact ih _
  | case7 p c cs hc ih =>
    rw [skipFrom]
    · exact ih _
    · exact hc
  | case8 p cs ih => exact ih _
  | case9 p c cs hc ih =>
    rw [skipFrom]
    · exact ih _
    · exact hc
  | case10 k p => cases k <;> rfl

theorem skipped_skipped (cs : List Char) : skipped (skipped cs) = skipped cs := by
  have h (k : Skipping) (p : Place) : skipped (skipFrom k p cs).rest = (skipFrom k p cs).rest := by
    fun_induction skipFrom k p cs with
    | case3 p cs hopen => rw [skipped, skipFrom, if_neg hopen]
    | case5 p c cs hline hblock hblank =>
      rw [skipped, skipFrom, if_neg hblank]
      · exact hline
      · exact hblock
    | case10 => rfl
    | _ => assumption
  exact h _ _

@[simp] theorem skipped_space (cs : List Char) : skipped (' ' :: cs) = skipped cs :=
  skipFrom_rest .blanks (Place.origin.advance ' ') .origin cs

/-- A text that begins neither with a blank nor with a stroke has nothing to skip. -/
theorem skipped_cons {c : Char} (hblank : isBlank c = false) (hstroke : c ≠ '/') (cs : List Char) :
    skipped (c :: cs) = c :: cs := by
  rw [skipped, skipFrom, if_neg (by simp [hblank])]
  · exact fun _ hc _ => hstroke hc
  · exact fun _ hc _ => hstroke hc

/-! ## What matchers match -/

namespace Matcher

variable {α β : Type} (p q : Matcher α) (f : α → Matcher β) (c : Cursor)

theorem bind_matched : ((p >>= f) c).matched = (p c).matched.bind fun r => (f r.1 r.2).matched := by
  show (p.andThen f c).matched = _
  unfold andThen
  rcases p c with ⟨_ | r, k⟩ <;> rfl

theorem orElse_matched : (p.orElse q c).matched = (p c).matched.or (q c).matched := by
  unfold Matcher.orElse
  rcases p c with ⟨_ | r, k⟩ <;> rfl

theorem named_matched : (p.named c).matched = (p c).matched := by
  unfold named
  rcases p c with ⟨_ | r, k⟩ <;> rfl

theorem rounds_matched (n : Nat) : (rounds p (n + 1) c).matched =
    (p c).matched.elim (some ([], c)) fun r => (rounds p n r.2).matched.map fun rs => (r.1 :: rs.1, rs.2) := by
  simp only [rounds]
  rcases p c with ⟨_ | r, k⟩ <;> rfl

end Matcher

end VirtualComputer.Grammar
