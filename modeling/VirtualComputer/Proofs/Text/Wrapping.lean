import Mathlib.Data.List.DropRight
import VirtualComputer.Machine.Display

/-!
# Wrapped lines

The lines of a message, one after another, are its text again (`Laid`): between two of them stands a line break, a
space or nothing.  A space is dropped at the end of a line only where the word after it would not have fitted on that
line, and a word is broken only if it is wider than a line.

- A word that is cut into pieces loses nothing, and all pieces but the last are as wide as a line (`chop_cut`).
- The lines of a paragraph are set from an open line and the words still to come (`setWords`, `wrapParagraph_eq`), and
  so are laid (`laid_setWords`).
- What a display is asked for is to be cleared, and then to show these lines (`wrapped_greedily`).
-/

namespace VirtualComputer

namespace Text

/-! ## Splitting -/

theorem splitOn_ne_nil (sep : Char) (cs : List Char) : splitOn sep cs ≠ [] := by
  cases cs with
  | nil => exact List.cons_ne_nil _ _
  | cons c cs =>
    rw [splitOn]
    split
    · exact List.cons_ne_nil _ _
    · split <;> exact List.cons_ne_nil _ _

theorem joinWith_cons_cons (sep : Char) (piece next : List Char) (pieces : List (List Char)) :
    joinWith sep (piece :: next :: pieces) = piece ++ sep :: joinWith sep (next :: pieces) := rfl

/-- The pieces joined again are the text. -/
theorem joinWith_splitOn (sep : Char) (cs : List Char) : joinWith sep (splitOn sep cs) = cs := by
  induction cs with
  | nil => rfl
  | cons c cs ih =>
    rw [splitOn]
    obtain ⟨piece, pieces, h⟩ := List.exists_cons_of_ne_nil (splitOn_ne_nil sep cs)
    rw [h] at ih ⊢
    split
    · next hc => rw [joinWith_cons_cons, ih, hc, List.nil_append]
    · cases pieces with
      | nil => exact congrArg (c :: ·) ih
      | cons next pieces => exact congrArg (c :: ·) ih

/-- The pieces consist of characters of the text, none of them the separator. -/
theorem mem_splitOn {sep : Char} {cs piece : List Char} (h : piece ∈ splitOn sep cs) :
    ∀ c ∈ piece, c ∈ cs ∧ c ≠ sep := by
  induction cs generalizing piece with
  | nil =>
    obtain rfl := List.mem_singleton.1 h
    exact nofun
  | cons c cs ih =>
    have hold {q : List Char} (hq : q ∈ splitOn sep cs) : ∀ d ∈ q, d ∈ c :: cs ∧ d ≠ sep :=
      fun d hd => ⟨List.mem_cons_of_mem _ (ih hq d hd).1, (ih hq d hd).2⟩
    rw [splitOn] at h
    split at h
    · rcases List.mem_cons.1 h with rfl | h
      · exact nofun
      · exact hold h
    · next hc =>
      obtain ⟨q, qs, he⟩ := List.exists_cons_of_ne_nil (splitOn_ne_nil sep cs)
      rw [he] at h hold
      rcases List.mem_cons.1 h with rfl | h
      · exact List.forall_mem_cons.2 ⟨⟨List.mem_cons_self, hc⟩, hold List.mem_cons_self⟩
      · exact hold (List.mem_cons_of_mem _ h)

/-! ## Laid lines -/

/-- Whether a character is part of a word. -/
def isLetter (c : Char) : Bool :=
  c ≠ ' ' && c ≠ '\n'

/-- Whether characters make a line of some width. -/
def Fits (width : Nat) (line : List Char) : Prop :=
  line.length ≤ width ∧ '\n' ∉ line

/-- Lines that are, one after another, a text that follows another one.  A space between two lines is dropped only
where the next word is too wide for the rest of the line, and lines meet within a word only if it is wider than a
line. -/
inductive Laid (width : Nat) : List Char → List (List Char) → List Char → Prop
  | last {before line : List Char} (hline : Fits width line) : Laid width before [line] line
  | newline {before line text : List Char} {lines : List (List Char)} (hline : Fits width line)
      (h : Laid width (before ++ line ++ ['\n']) lines text) : Laid width before (line :: lines) (line ++ '\n' :: text)
  | space {before line text : List Char} {lines : List (List Char)} (hline : Fits width line)
      (hfull : width < line.length + 1 + (text.takeWhile isLetter).length)
      (h : Laid width (before ++ line ++ [' ']) lines text) : Laid width before (line :: lines) (line ++ ' ' :: text)
  | inside {before line text : List Char} {lines : List (List Char)} (hline : Fits width line)
      (hleft : (before ++ line).rtakeWhile isLetter ≠ []) (hright : text.takeWhile isLetter ≠ [])
      (hwide : width < ((before ++ line).rtakeWhile isLetter).length + (text.takeWhile isLetter).length)
      (h : Laid width (before ++ line) lines text) : Laid width before (line :: lines) (line ++ text)

theorem Laid.fits {width : Nat} {before text : List Char} {lines : List (List Char)}
    (h : Laid width before lines text) : ∀ line ∈ lines, Fits width line := by
  induction h with
  | last hline => exact List.forall_mem_singleton.2 hline
  | newline hline _ ih | space hline _ _ ih | inside hline _ _ _ _ ih => exact List.forall_mem_cons.2 ⟨hline, ih⟩

/-- The first word of a text does not go beyond the next space or line break. -/
theorem takeWhile_isLetter {c : Char} (hc : isLetter c = false) (text rest : List Char) :
    (text ++ c :: rest).takeWhile isLetter = text.takeWhile isLetter := by
  induction text with
  | nil => simp [hc]
  | cons d text ih =>
    rw [List.cons_append, List.takeWhile_cons, List.takeWhile_cons, ih]

theorem fits_of_letters {width : Nat} {word : List Char} (hw : word.length ≤ width) (h : ∀ c ∈ word, isLetter c) :
    Fits width word :=
  ⟨hw, fun hc => Bool.false_ne_true (h '\n' hc)⟩

/-- A word that ends a text is part of the last word. -/
theorem length_le_rtakeWhile {word : List Char} (hword : ∀ c ∈ word, isLetter c) (before : List Char) :
    word.length ≤ ((before ++ word).rtakeWhile isLetter).length := by
  rw [List.rtakeWhile, List.reverse_append, List.takeWhile_append_of_pos (by simpa using hword)]
  simp

/-- Laid lines, and others below them. -/
theorem Laid.append {width : Nat} {before text text' : List Char} {lines lines' : List (List Char)}
    (h : Laid width before lines text) (h' : Laid width (before ++ text ++ ['\n']) lines' text') :
    Laid width before (lines ++ lines') (text ++ '\n' :: text') := by
  induction h with
  | last hline => exact .newline hline h'
  | newline hline h ih =>
    rw [List.append_assoc, List.cons_append, List.cons_append]
    exact .newline hline (ih (by simpa using h'))
  | space hline hfull h ih =>
    rw [List.append_assoc, List.cons_append, List.cons_append]
    refine .space hline ?_ (ih (by simpa using h'))
    rwa [takeWhile_isLetter rfl]
  | inside hline hleft hright hwide h ih =>
    rw [List.append_assoc, List.cons_append]
    refine .inside hline hleft ?_ ?_ (ih (by simpa using h'))
    · rwa [takeWhile_isLetter rfl]
    · rwa [takeWhile_isLetter rfl]

/-! ## Cutting words -/

/-- A word in pieces that are all of the given width, but for the last one. -/
structure Cut (width : Nat) (word : List Char) (pieces : List (List Char)) (piece : List Char) : Prop where
  whole : pieces.flatten ++ piece = word
  wide : ∀ p ∈ pieces, p.length = width
  fits : piece.length ≤ width
  /-- Nothing is cut off at the very end. -/
  remains : pieces ≠ [] → piece ≠ []

theorem chop_cut {width : Nat} (hw : 0 < width) (word : List Char) :
    Cut width word (chop width word).1 (chop width word).2 := by
  -- characters are added at the end of what is cut already
  induction word using List.reverseRecOn with
  | nil => exact ⟨rfl, nofun, Nat.zero_le _, fun h => absurd rfl h⟩
  | append_singleton word c ih =>
    have hstep : chop width (word ++ [c]) =
        if (chop width word).2.length < width then ((chop width word).1, (chop width word).2 ++ [c])
        else ((chop width word).1 ++ [(chop width word).2], [c]) := by
      rw [chop, List.foldl_append]
      rfl
    obtain ⟨whole, wide, fits, remains⟩ := ih
    rw [hstep]
    split
    · next hroom =>
      refine ⟨?_, wide, ?_, fun _ => List.append_ne_nil_of_right_ne_nil _ (List.cons_ne_nil _ _)⟩
      · rw [← List.append_assoc, whole]
      · rw [List.length_append, List.length_singleton]
        exact hroom
    · next hfull =>
      refine ⟨?_, ?_, hw, fun _ => List.cons_ne_nil _ _⟩
      · rw [List.flatten_append, List.flatten_singleton, whole]
      · intro p hp
        rcases List.mem_append.1 hp with hp | hp
        · exact wide p hp
        · obtain rfl := List.mem_singleton.1 hp
          omega

/-- The pieces of a word are laid if what comes after them is; `done` is what has been laid of it already. -/
theorem Cut.laid {width : Nat} (hw : 0 < width) {before rest piece : List Char} {lines : List (List Char)}
    {pieces : List (List Char)} : ∀ done word : List Char, Cut width word pieces piece →
      (∀ c ∈ done ++ word, isLetter c) → Laid width (before ++ done ++ pieces.flatten) lines (piece ++ rest) →
      Laid width (before ++ done) (pieces ++ lines) (word ++ rest) := by
  induction pieces with
  | nil =>
    rintro done word ⟨rfl, -, -, -⟩ - h
    simpa using h
  | cons p pieces ih =>
    rintro done word ⟨rfl, wide, fits, remains⟩ hletters h
    have hp : p.length = width := wide p List.mem_cons_self
    have hpiece : piece ≠ [] := remains (List.cons_ne_nil _ _)
    have hleft : ∀ c ∈ done ++ p, isLetter c := fun c hc => hletters c (by
      simp only [List.flatten_cons, List.mem_append] at hc ⊢
      tauto)
    have hright : ∀ c ∈ pieces.flatten ++ piece, isLetter c := fun c hc => hletters c (by
      simp only [List.flatten_cons, List.mem_append] at hc ⊢
      tauto)
    have hdone : width ≤ ((before ++ done ++ p).rtakeWhile isLetter).length := by
      have := length_le_rtakeWhile hleft before
      rw [← List.append_assoc, List.length_append] at this
      omega
    have hnext : 0 < ((pieces.flatten ++ piece ++ rest).takeWhile isLetter).length := by
      rw [List.takeWhile_append_of_pos hright, List.length_append, List.length_append]
      have := List.length_pos_iff.2 hpiece
      omega
    rw [List.flatten_cons, List.append_assoc p, List.append_assoc p, List.cons_append]
    refine .inside (fits_of_letters hp.le fun c hc => hleft c (List.mem_append_right _ hc)) ?_ ?_ (by omega) ?_
    · exact List.length_pos_iff.1 (by omega)
    · exact List.length_pos_iff.1 hnext
    · rw [List.append_assoc before]
      refine ih (done ++ p) _ ⟨rfl, fun q hq => wide q (List.mem_cons_of_mem _ hq), fits, fun _ => hpiece⟩
        ?_ ?_
      · simpa using hletters
      · simpa using h

/-! ## Paragraphs -/

/-- An open line with one more word. -/
def extend (line : Option (List Char)) (word : List Char) : List Char :=
  line.elim word (· ++ ' ' :: word)

/-- The lines that an open line and the words still to come make. -/
def setWords (width : Nat) (line : Option (List Char)) : List (List Char) → List (List Char)
  | [] => [line.getD []]
  | word :: words =>
    if (extend line word).length ≤ width then setWords width (some (extend line word)) words
    else line.toList ++ (chop width word).1 ++ setWords width (some (chop width word).2) words

/-- The text that an open line and the words still to come stand for. -/
def unset : Option (List Char) → List (List Char) → List Char
  | none, words => joinWith ' ' words
  | some line, words => line ++ words.flatMap (' ' :: ·)

theorem joinWith_cons (sep : Char) (piece : List Char) (pieces : List (List Char)) :
    joinWith sep (piece :: pieces) = piece ++ pieces.flatMap (sep :: ·) := by
  induction pieces generalizing piece with
  | nil => simp [joinWith]
  | cons next pieces ih => rw [joinWith_cons_cons, ih, List.flatMap_cons, List.cons_append]

theorem foldl_add (width : Nat) (words : List (List Char)) (f : Filling) :
    ((words.foldl (Filling.add width) f).line.getD [] :: (words.foldl (Filling.add width) f).finished).reverse =
      f.finished.reverse ++ setWords width f.line words := by
  induction words generalizing f with
  | nil => simp [setWords]
  | cons word words ih =>
    have hadd : Filling.add width f word = if (extend f.line word).length ≤ width
        then ⟨f.finished, some (extend f.line word)⟩
        else ⟨(chop width word).1.reverse ++ f.line.toList ++ f.finished, some (chop width word).2⟩ := by
      rcases f with ⟨finished, _ | line⟩ <;> rfl
    rw [List.foldl_cons, ih, setWords, hadd]
    split
    · rfl
    · cases f.line <;> simp

theorem wrapParagraph_eq (width : Nat) (paragraph : List Char) :
    wrapParagraph width paragraph = setWords width none (splitOn ' ' paragraph) :=
  foldl_add width (splitOn ' ' paragraph) ⟨[], none⟩

variable {width : Nat} (hw : 0 < width)
include hw

/-- By induction on the words still to come; a word that is begun on a new line was too wide for the open one. -/
theorem laid_setWords {words : List (List Char)} (hletters : ∀ word ∈ words, ∀ c ∈ word, isLetter c)
    (line : Option (List Char)) (hline : Fits width (line.getD [])) (before : List Char) :
    Laid width before (setWords width line words) (unset line words) := by
  induction words generalizing line before with
  | nil => cases line <;> simpa [setWords, unset, joinWith] using Laid.last hline
  | cons word words ih =>
    obtain ⟨hword, hletters⟩ := List.forall_mem_cons.1 hletters
    have hcut := chop_cut hw word
    have hpiece : Fits width (chop width word).2 := fits_of_letters hcut.fits fun c hc =>
      hword c (hcut.whole ▸ List.mem_append_right _ hc)
    have hpieces (before : List Char) : Laid width before
        ((chop width word).1 ++ setWords width (some (chop width word).2) words)
        (word ++ words.flatMap (' ' :: ·)) := by
      have hrest := ih hletters (some (chop width word).2) hpiece (before ++ [] ++ (chop width word).1.flatten)
      have := hcut.laid hw [] word hword hrest
      rwa [List.append_nil] at this
    have hnext : (word ++ words.flatMap (' ' :: ·)).takeWhile isLetter = word := by
      rw [List.takeWhile_append_of_pos hword]
      cases words <;> simp [isLetter]
    rw [setWords]
    cases line with
    | none =>
      rw [unset, joinWith_cons]
      split
      · next hroom => exact ih hletters (some word) (fits_of_letters hroom hword) before
      · exact hpieces before
    | some line =>
      rw [unset, List.flatMap_cons]
      split
      · next hroom =>
        have hbreak : '\n' ∉ line ++ ' ' :: word := by
          have hword := (fits_of_letters le_rfl hword).2
          simpa [hword] using hline.2
        have := ih hletters (some (line ++ ' ' :: word)) ⟨hroom, hbreak⟩ before
        rwa [unset, List.append_assoc, List.cons_append] at this
      · next hfull =>
        rw [List.cons_append]
        refine .space hline ?_ (hpieces _)
        rw [hnext]
        simp only [extend, Option.elim_some, List.length_append, List.length_cons] at hfull
        omega

/-! ## Messages -/

theorem laid_paragraphs {paragraphs : List (List Char)} (hne : paragraphs ≠ [])
    (hlines : ∀ p ∈ paragraphs, '\n' ∉ p) (before : List Char) :
    Laid width before (paragraphs.flatMap (wrapParagraph width)) (joinWith '\n' paragraphs) := by
  induction paragraphs generalizing before with
  | nil => exact absurd rfl hne
  | cons p paragraphs ih =>
    obtain ⟨hp, hlines⟩ := List.forall_mem_cons.1 hlines
    have hletters : ∀ word ∈ splitOn ' ' p, ∀ c ∈ word, isLetter c := by
      intro word hword c hc
      obtain ⟨hmem, hspace⟩ := mem_splitOn hword c hc
      have hbreak : c ≠ '\n' := fun he => hp (he ▸ hmem)
      simp [isLetter, hspace, hbreak]
    have hlaid := laid_setWords hw hletters none ⟨Nat.zero_le _, nofun⟩ before
    rw [unset, joinWith_splitOn, ← wrapParagraph_eq] at hlaid
    rw [List.flatMap_cons]
    cases paragraphs with
    | nil => simpa [joinWith] using hlaid
    | cons q paragraphs =>
      rw [joinWith_cons_cons]
      exact hlaid.append (ih (List.cons_ne_nil _ _) hlines _)

omit hw in
/-- The lines of a message are no wider than asked for, lose nothing of it and are filled as far as they can be; a
display is cleared once and then shows them from the top. -/
theorem wrapped_greedily (message : String) (width : Nat) :
    (∀ line ∈ wrap message width, line.length ≤ max width 1) ∧
      Laid (max width 1) [] ((wrap message width).map String.toList) (expandTabs message.toList) ∧
      (DisplayCall.render width message).head? = some .clear ∧
      (DisplayCall.render width message).count .clear = 1 ∧
      ∀ row, (DisplayCall.render width message)[row + 1]? = (wrap message width)[row]?.map (.line row) := by
  have hlines : ∀ p ∈ splitOn '\n' (expandTabs message.toList), '\n' ∉ p :=
    fun p hp hc => (mem_splitOn hp _ hc).2 rfl
  have hlaid : Laid (max width 1) [] ((wrap message width).map String.toList) (expandTabs message.toList) := by
    have := laid_paragraphs (show 0 < max width 1 by omega) (splitOn_ne_nil '\n' _) hlines []
    rw [joinWith_splitOn] at this
    simpa [wrap, Function.comp_def] using this
  refine ⟨fun line hline => ?_, hlaid, rfl, ?_, fun row => ?_⟩
  · rw [← String.length_toList]
    exact (hlaid.fits _ (List.mem_map_of_mem hline)).1
  · have hrows : DisplayCall.clear ∉ (wrap message width).mapIdx .line := by simp
    rw [DisplayCall.render, List.count_cons_self, List.count_eq_zero_of_not_mem hrows]
  · rw [DisplayCall.render, List.getElem?_cons_succ, List.getElem?_mapIdx]

end Text

end VirtualComputer
