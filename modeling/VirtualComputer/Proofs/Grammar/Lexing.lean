import VirtualComputer.Proofs.Grammar.Reading
import VirtualComputer.Proofs.Grammar.Term

/-!
# Lexemes are read as they are written

Keywords, names, numbers and strings are each read up to what ends them (`reads_keyword`, `reads_name`,
`splitNumber_text`, `splitString_enclose`) and have the value that is written (`numberValue_text`,
`stringValue_enclose`).  What begins otherwise is refused.
-/

namespace VirtualComputer.Grammar

open Matcher

/-- What may follow a word or a number: no further character of a word, and no digit behind a point. -/
structure Breaks (rest : List Char) : Prop where
  word : ∀ c ∈ rest.head?, isWordChar c = false
  point : ∀ d ds, rest = '.' :: d :: ds → d.isDigit = false

variable {cs taken rest : List Char}

/-- The longest run of characters of a kind ends where one of another kind follows. -/
theorem longest_run {p : Char → Bool} (h : ∀ c ∈ taken, p c) (hrest : ∀ c ∈ rest.head?, p c = false) :
    (taken ++ rest).takeWhile p = taken ∧ (taken ++ rest).dropWhile p = rest := by
  rw [List.takeWhile_append_of_pos h, List.dropWhile_append_of_pos h]
  cases rest with
  | nil => simp
  | cons c rest => simp [hrest c rfl]

theorem isWordChar_of_isDigit {c : Char} (h : c.isDigit) : isWordChar c := by
  simp [isWordChar, Char.isAlphanum, h]

theorem Breaks.digit (h : Breaks rest) : ∀ c ∈ rest.head?, c.isDigit = false := by
  intro c hc
  by_contra hd
  have hw := isWordChar_of_isDigit (Bool.of_not_eq_false hd)
  rw [h.word c hc] at hw
  cases hw

/-! ## Scans -/

section Scans

variable {split : List Char → Option (List Char × List Char)}

theorem reads_scan (h : split cs = some (taken, rest)) : (scan split).Reads cs rest (· = taken) :=
  fun place => ⟨taken, ⟨place.advanceAll taken, rest⟩, by simp [scan, h], rfl, rfl⟩

theorem reads_lexeme (h : split cs = some (taken, rest)) : (lexeme split).Reads cs rest (· = taken) :=
  (reads_scan h).named

theorem refuses_scan (h : split cs = none) : (scan split).Refuses cs :=
  fun place => by simp [scan, h]

theorem refuses_lexeme (h : split cs = none) : (lexeme split).Refuses cs :=
  (refuses_scan h).named

end Scans

/-! ## Fixed texts -/

theorem splitLiteral_self (ws cs : List Char) : splitLiteral ws (ws ++ cs) = some (ws, cs) := by
  induction ws with
  | nil => rfl
  | cons w ws ih => simp [splitLiteral, ih]

theorem reads_literal (text : String) (cs : List Char) : (literal text).Reads (text.toList ++ cs) cs fun _ => True :=
  Answers.bind (reads_scan (splitLiteral_self _ _)) fun _ _ ⟨hr, _⟩ => answers_pure ⟨hr, trivial⟩

theorem reads_char {text : String} {c : Char} (htext : text.toList = [c]) (cs : List Char) :
    (literal text).Reads (c :: cs) cs fun _ => True := by
  have h := reads_literal text cs
  rwa [htext] at h

theorem refuses_literal {text : String} {w : Char} {ws : List Char} (htext : text.toList = w :: ws)
    (h : w ∉ cs.head?) : (literal text).Refuses cs := by
  refine Refuses.bind (refuses_scan ?_)
  rw [htext]
  cases cs with
  | nil => rfl
  | cons c cs =>
    rw [splitLiteral, if_neg]
    rintro rfl
    exact h rfl

/-! ## Words -/

section Words

variable (hword : taken.all isWordChar) (hrest : ∀ c ∈ rest.head?, isWordChar c = false)

include hword hrest

theorem splitWord_run : splitWord (taken ++ rest) = (taken, rest) := by
  obtain ⟨ht, hd⟩ := longest_run (List.all_eq_true.1 hword) hrest
  rw [splitWord, ht, hd]

theorem splitKeyword_run {word : String} (h : taken = word.toList) :
    splitKeyword word (taken ++ rest) = some (taken, rest) := by
  rw [splitKeyword, splitWord_run hword hrest]
  exact if_pos h

theorem splitKeyword_none {word : String} (h : taken ≠ word.toList) : splitKeyword word (taken ++ rest) = none := by
  rw [splitKeyword, splitWord_run hword hrest]
  exact if_neg h

theorem splitName_run (h : isName taken) : splitName (taken ++ rest) = some (taken, rest) := by
  rw [splitName, splitWord_run hword hrest]
  exact if_pos h

theorem splitName_none (h : isName taken = false) : splitName (taken ++ rest) = none := by
  rw [splitName, splitWord_run hword hrest]
  exact if_neg (by simp [h])

end Words

/-- A word that begins otherwise is not the given one. -/
theorem splitKeyword_head {word : String} {w : Char} {ws : List Char} (hword : word.toList = w :: ws)
    (h : w ∉ cs.head?) : splitKeyword word cs = none := by
  refine if_neg fun heq => ?_
  have hrun : cs.takeWhile isWordChar = w :: ws := hword ▸ heq
  cases cs with
  | nil => cases hrun
  | cons c cs =>
    rw [List.takeWhile_cons] at hrun
    split at hrun
    · cases hrun
      exact h rfl
    · cases hrun

theorem splitName_head (h : ∀ c ∈ cs.head?, isWordChar c = false) : splitName cs = none :=
  splitName_none List.all_nil h rfl

theorem isName_text (x : Name) : isName x.text := by
  obtain ⟨text, wordy, ⟨c, hc, hstart⟩, free⟩ := x
  have hfree : ∀ w ∈ reservedWords, w.toList ≠ text := by
    rintro w hw rfl
    exact free (by simpa using hw)
  simp only [Grammar.isName, Bool.and_eq_true]
  constructor
  · rw [show text.head? = some c from hc]
    simp [hstart]
  · simpa using hfree

theorem reads_keyword {word : String} (hword : word.toList.all isWordChar)
    (hrest : ∀ c ∈ rest.head?, isWordChar c = false) :
    (keyword word).Reads (word.toList ++ rest) rest fun _ => True :=
  Answers.bind (reads_lexeme (splitKeyword_run hword hrest rfl)) fun _ _ ⟨hr, _⟩ => answers_pure ⟨hr, trivial⟩

theorem refuses_keyword {word : String} (h : splitKeyword word cs = none) : (keyword word).Refuses cs :=
  Refuses.bind (refuses_lexeme h)

theorem reads_name (x : Name) (hrest : ∀ c ∈ rest.head?, isWordChar c = false) :
    name.Reads (x.text ++ rest) rest (· = String.ofList x.text) :=
  Answers.bind (reads_lexeme (splitName_run (List.all_eq_true.2 x.wordy) hrest (isName_text x))) fun _ _ ⟨hr, ha⟩ =>
    answers_pure ⟨hr, congrArg String.ofList ha⟩

theorem refuses_name (h : ∀ c ∈ cs.head?, isWordChar c = false) : name.Refuses cs :=
  Refuses.bind (refuses_lexeme (splitName_head h))

theorem name_ne_reserved (x : Name) {w : String} (hw : w ∈ reservedWords) : x.text ≠ w.toList := by
  intro h
  have hfree := x.free
  rw [h, String.ofList_toList] at hfree
  exact hfree hw

/-! ## Numbers -/

section Numbers

variable (n : NumberLiteral)

theorem letter_eq (p : PowerOfTen) : p.letter = 'e' ∨ p.letter = 'E' := by
  rw [PowerOfTen.letter]
  split
  · exact .inr rfl
  · exact .inl rfl

theorem splitExponent_mark (hrest : Breaks rest) : splitExponent (n.mark ++ rest) = (n.mark, rest) := by
  rw [NumberLiteral.mark]
  cases n.power with
  | none =>
    cases rest with
    | nil => rfl
    | cons c rest =>
      have hc : (c = 'e' || c = 'E') = false := by
        have := hrest.word c rfl
        rw [Bool.or_eq_false_iff, decide_eq_false_iff_not, decide_eq_false_iff_not]
        constructor <;> rintro rfl <;> cases this
      show splitExponent (c :: rest) = ([], c :: rest)
      simp only [splitExponent, hc, Bool.false_and, Bool.false_eq_true, if_false]
  | some p =>
    obtain ⟨ht, hd⟩ := longest_run p.digits.2.2 hrest.digit
    obtain ⟨d, ds, hds, hdigit⟩ := p.digits.exists_cons
    have hplus : d ≠ '+' := by rintro rfl; cases hdigit
    have hminus : d ≠ '-' := by rintro rfl; cases hdigit
    have hguard : (p.letter = 'e' ∨ p.letter = 'E') ∧ (p.digits.1 ++ rest).head?.any Char.isDigit :=
      ⟨letter_eq p, by rw [hds]; exact hdigit⟩
    show splitExponent (p.letter :: (p.signText ++ p.digits.1 ++ rest)) = (p.letter :: (p.signText ++ p.digits.1), rest)
    rw [PowerOfTen.signText]
    rcases p.sign with _ | _ | _
    · rw [hds] at ht hd hguard ⊢
      simp_all [splitExponent]
    · simp_all [splitExponent]
    · simp_all [splitExponent]

/-- What follows the digits before a power of ten. -/
theorem mark_breaks (hrest : Breaks rest) : (∀ c ∈ (n.mark ++ rest).head?, c.isDigit = false) ∧
    ∀ d ds, n.mark ++ rest = '.' :: d :: ds → d.isDigit = false := by
  rw [NumberLiteral.mark]
  cases n.power with
  | none => exact ⟨hrest.digit, hrest.point⟩
  | some p =>
    have hletter := letter_eq p
    constructor
    · rintro c ⟨⟩
      rcases hletter with h | h <;> rw [h] <;> rfl
    · intro d ds h
      have hpoint : p.letter = '.' := (List.cons.inj h).1
      rcases hletter with h | h <;> rw [h] at hpoint <;> cases hpoint

theorem splitFraction_point (hrest : Breaks rest) :
    splitFraction (n.point ++ (n.mark ++ rest)) = (n.point, n.mark ++ rest) := by
  obtain ⟨hdigit, hpoint⟩ := mark_breaks n hrest
  rw [NumberLiteral.point]
  generalize n.mark ++ rest = tail at *
  cases n.fraction with
  | none =>
    show splitFraction tail = ([], tail)
    unfold splitFraction
    split
    · next d cs => rw [hpoint d cs rfl, if_neg Bool.false_ne_true]
    · rfl
  | some ds =>
    obtain ⟨ht, hd⟩ := longest_run ds.2.2 hdigit
    obtain ⟨d, ds', hds, hfirst⟩ := ds.exists_cons
    rw [hds] at ht hd
    show splitFraction ('.' :: (ds.1 ++ tail)) = ('.' :: ds.1, tail)
    simp_all [splitFraction]

theorem point_head (hrest : Breaks rest) : ∀ c ∈ (n.point ++ (n.mark ++ rest)).head?, c.isDigit = false := by
  rw [NumberLiteral.point]
  cases n.fraction with
  | none => exact (mark_breaks n hrest).1
  | some ds =>
    rintro c ⟨⟩
    rfl

theorem splitNumber_text (hrest : Breaks rest) : splitNumber (n.text ++ rest) = some (n.text, rest) := by
  obtain ⟨ht, hd⟩ := longest_run n.whole.2.2 (point_head n hrest)
  have hne : n.whole.1.isEmpty = false := by simpa using n.whole.2.1
  rw [NumberLiteral.text, List.append_assoc, List.append_assoc, splitNumber]
  simp only [ht, hd, hne, splitFraction_point n hrest, splitExponent_mark n hrest, List.append_assoc]
  rfl

theorem takeSign_digit {c : Char} (hc : c.isDigit) (cs : List Char) :
    Decimal.Numeral.takeSign (c :: cs) = (none, c :: cs) := by
  unfold Decimal.Numeral.takeSign
  split
  · next h =>
    cases h
    cases hc
  · next h =>
    cases h
    cases hc
  · rfl

theorem takeSign_power (p : PowerOfTen) :
    Decimal.Numeral.takeSign (p.signText ++ p.digits.1) = (p.sign, p.digits.1) := by
  rw [PowerOfTen.signText]
  rcases p.sign with _ | _ | _
  · obtain ⟨d, ds, hds, hdigit⟩ := p.digits.exists_cons
    rw [hds]
    exact takeSign_digit hdigit ds
  · rfl
  · rfl

theorem exponent_power : Decimal.Numeral.exponent? n.mark = some (n.power.map PowerOfTen.exponent) := by
  rw [NumberLiteral.mark]
  cases n.power with
  | none => rfl
  | some p =>
    have hall : p.digits.1.all Char.isDigit := List.all_eq_true.2 p.digits.2.2
    have hne : p.digits.1.isEmpty = false := by simpa using p.digits.2.1
    have hletter : (p.letter = 'e' || p.letter = 'E') := by simpa using letter_eq p
    show Decimal.Numeral.exponent? (p.letter :: (p.signText ++ p.digits.1)) = some (some p.exponent)
    rw [Decimal.Numeral.exponent?, if_pos hletter, takeSign_power]
    simp only [hall, hne, PowerOfTen.exponent]
    rfl

theorem takeFraction_mark :
    Decimal.Numeral.takeFraction (n.point ++ n.mark) = (n.fraction.map Subtype.val, n.mark) := by
  have hend : Breaks [] := ⟨nofun, nofun⟩
  have hmark := mark_breaks n hend
  rw [List.append_nil] at hmark
  rw [NumberLiteral.point]
  cases n.fraction with
  | none =>
    show Decimal.Numeral.takeFraction n.mark = (none, n.mark)
    rw [NumberLiteral.mark]
    cases n.power with
    | none => rfl
    | some p =>
      show Decimal.Numeral.takeFraction (p.letter :: _) = (none, p.letter :: _)
      rcases letter_eq p with h | h <;> rw [h] <;> rfl
  | some ds =>
    obtain ⟨ht, hd⟩ := longest_run ds.2.2 hmark.1
    show Decimal.Numeral.takeFraction ('.' :: (ds.1 ++ n.mark)) = (some ds.1, n.mark)
    rw [Decimal.Numeral.takeFraction, ht, hd]

theorem refuses_number (h : ∀ c ∈ cs.head?, c.isDigit = false) : (lexeme splitNumber).Refuses cs := by
  refine refuses_lexeme ?_
  have hrun : cs.takeWhile Char.isDigit = [] := (longest_run (List.forall_mem_nil _) h).1
  rw [splitNumber, hrun]
  rfl

/-- The value that is read is the one of the digits as they are written. -/
theorem numberValue_text : numberValue n.text = n.value := by
  have hend : Breaks [] := ⟨nofun, nofun⟩
  have hpoint := point_head n hend
  rw [List.append_nil] at hpoint
  obtain ⟨ht, hd⟩ := longest_run n.whole.2.2 hpoint
  have hne : n.whole.1.isEmpty = false := by simpa using n.whole.2.1
  have hsign : Decimal.Numeral.takeSign n.text = (none, n.text) := by
    obtain ⟨d, ds, hds, hdigit⟩ := n.whole.exists_cons
    rw [NumberLiteral.text, hds]
    exact takeSign_digit hdigit _
  rw [numberValue, Decimal.Numeral.read?, hsign]
  simp only [NumberLiteral.text, ht, hd, takeFraction_mark, exponent_power, hne]
  rfl

end Numbers

/-! ## Strings -/

section Strings

variable (q : Quote) (s : String)

theorem escape_cases (c : Char) : (Quote.escape c = ['\\', c] ∧ unescapeChar c = c) ∨
    (Quote.escape c = [c] ∧ c ≠ '"' ∧ c ≠ '\'' ∧ c ≠ '\\') := by
  rw [Quote.escape]
  split
  · next h => exact .inl ⟨rfl, by rcases h with rfl | rfl | rfl <;> rfl⟩
  · next h => exact .inr ⟨rfl, by simpa using h⟩

theorem splitContents_escaped (cs rest : List Char) :
    splitContents q.char (cs.flatMap Quote.escape ++ q.char :: rest) =
      some (cs.flatMap Quote.escape ++ [q.char], rest) := by
  induction cs with
  | nil => cases q <;> simp [splitContents, Quote.char]
  | cons c cs ih =>
    rw [List.flatMap_cons]
    obtain ⟨hc, -⟩ | ⟨hc, hdouble, hsingle, hback⟩ := escape_cases c
    · rw [hc]
      simp [splitContents, ih]
    · rw [hc]
      have hquote : c ≠ q.char := by cases q <;> assumption
      simp [splitContents, ih, hquote, hback]

theorem splitString_enclose (rest : List Char) :
    splitString (q.enclose s ++ rest) = some (q.enclose s, rest) := by
  have hquote : (q.char = '"' || q.char = '\'') = true := by cases q <;> rfl
  rw [Quote.enclose, List.cons_append, List.append_assoc, List.singleton_append, splitString, if_pos hquote,
    splitContents_escaped]
  rfl

theorem unescape_escaped (cs : List Char) : unescape (cs.flatMap Quote.escape) = cs := by
  induction cs with
  | nil => rfl
  | cons c cs ih =>
    rw [List.flatMap_cons]
    obtain ⟨hc, hunescape⟩ | ⟨hc, -, -, hback⟩ := escape_cases c
    · rw [hc]
      simp [unescape, ih, hunescape]
    · rw [hc]
      simp [unescape, ih, hback]

theorem stringValue_enclose : stringValue (q.enclose s) = s := by
  rw [stringValue, Quote.enclose, List.drop_one, List.tail_cons, List.dropLast_concat, unescape_escaped]
  exact String.ofList_toList

end Strings

theorem refuses_string (hdouble : '"' ∉ cs.head?) (hsingle : '\'' ∉ cs.head?) : (lexeme splitString).Refuses cs := by
  refine refuses_lexeme ?_
  cases cs with
  | nil => rfl
  | cons c cs =>
    refine if_neg ?_
    rw [Bool.or_eq_true, decide_eq_true_iff, decide_eq_true_iff]
    rintro (rfl | rfl)
    · exact hdouble rfl
    · exact hsingle rfl

end VirtualComputer.Grammar
