import VirtualComputer.Proofs.Json.Numbers

/-!
# Tokens of written texts

`Json.tokens` are the tokens that a value's text is made of.  The lexer takes a word as a whole up to a character that
cannot continue it (`lex_word`), resolves the escapes of a quoted string (`lex_quote`), and so cuts the text of a
value into its tokens (`tokens_write`).
-/

namespace VirtualComputer.Json

open Decimal

/-! ## The tokens of a value -/

/-- What is read in the place of a whole number. -/
def reread (i : ℤ) : Json :=
  if isWord i then .int i else floating ⟨if i < 0 then some true else none, toDigits i.natAbs, none, none⟩

mutual

/-- The tokens of the text of a value. -/
def tokens : Json → List Token
  | .null => [.scalar .null]
  | .bool b => [.scalar (.bool b)]
  | .int i => [.scalar (reread i)]
  | .float x => [.scalar (if x.isFinite then .float x else .null)]
  | .str s => [.text (some s)]
  | .arr items => .openList :: tokensItems items
  | .obj members => .openObject :: tokensMembers members
  | .unusable => [.scalar .null]

/-- The tokens of the items of a list, up to the closing bracket. -/
def tokensItems : List Json → List Token
  | [] => [.closeList]
  | [j] => tokens j ++ [.closeList]
  | j :: rest => tokens j ++ .comma :: tokensItems rest

/-- The tokens of the members of an object, up to the closing brace. -/
def tokensMembers : List (String × Json) → List Token
  | [] => [.closeObject]
  | [(k, j)] => .text (some k) :: .colon :: tokens j ++ [.closeObject]
  | (k, j) :: rest => .text (some k) :: .colon :: tokens j ++ .comma :: tokensMembers rest

end

/-! ## Runs of the lexer -/

/-- The tokens that a lexer ends with after some characters. -/
def lex (l : Lexer) (cs : List Char) : Option (List Token) :=
  (cs.foldlM Lexer.step l).bind Lexer.finish

theorem lex_cons (l : Lexer) (c : Char) (cs : List Char) : lex l (c :: cs) = (l.step c).bind (lex · cs) := by
  rw [lex, List.foldlM_cons]
  cases l.step c <;> rfl

/-- A word does not go on in what follows. -/
abbrev Delimited (cs : List Char) : Prop :=
  ∀ c ∈ cs.head?, Lexer.isWordChar c = false

/-- The rest of a word. -/
theorem lex_rest_of_word {t : Token} {ts : List Token} {rest : List Char} (hr : Delimited rest) :
    ∀ {cs seen : List Char}, Wordy cs → Token.ofWord? (seen.reverse ++ cs) = some t →
      lex ⟨.word seen, ts⟩ (cs ++ rest) = lex ⟨.between, t :: ts⟩ rest
  | [], seen, _, ht => by
    rw [List.append_nil] at ht
    cases rest with
    | nil =>
      change (Token.ofWord? seen.reverse).map _ = _
      rw [ht]
      rfl
    | cons c rest =>
      have hc : Lexer.isWordChar c = false := hr c rfl
      have hs : Lexer.step ⟨.word seen, ts⟩ c = Lexer.step ⟨.between, t :: ts⟩ c := by
        simp only [Lexer.step, hc, ht]
        rfl
      rw [List.nil_append, lex_cons, lex_cons, hs]
  | c :: cs, seen, hw, ht => by
    have hs : Lexer.step ⟨.word seen, ts⟩ c = some ⟨.word (c :: seen), ts⟩ := by
      simp only [Lexer.step, hw c List.mem_cons_self, if_true]
    rw [List.cons_append, lex_cons, hs, Option.bind_some]
    refine lex_rest_of_word hr (fun d hd => hw d (List.mem_cons_of_mem _ hd)) ?_
    rwa [List.reverse_cons, List.append_assoc]

theorem not_blank_of_wordChar {c : Char} (h : Lexer.isWordChar c) : Lexer.isBlank c = false ∧ c ≠ '"' := by
  refine ⟨?_, ?_⟩
  · cases hb : Lexer.isBlank c with
    | false => rfl
    | true =>
      simp only [Lexer.isBlank, Bool.or_eq_true, decide_eq_true_eq] at hb
      rcases hb with ((rfl | rfl) | rfl) | rfl <;> cases h
  · rintro rfl
    cases h

/-- A word is one token. -/
theorem lex_word {t : Token} {ts : List Token} {cs rest : List Char} (hw : Wordy cs) (ht : Token.ofWord? cs = some t)
    (hr : Delimited rest) : lex ⟨.between, ts⟩ (cs ++ rest) = lex ⟨.between, t :: ts⟩ rest := by
  cases cs with
  | nil => cases ht
  | cons c cs =>
    have hc : Lexer.isWordChar c := hw c List.mem_cons_self
    obtain ⟨hb, hq⟩ := not_blank_of_wordChar hc
    have hs : Lexer.step ⟨.between, ts⟩ c = some ⟨.word [c], ts⟩ := by
      simp only [Lexer.step, Lexer.outside, hb, hq, hc, Bool.false_eq_true, if_false, if_true]
    rw [List.cons_append, lex_cons, hs, Option.bind_some]
    exact lex_rest_of_word hr (fun d hd => hw d (List.mem_cons_of_mem _ hd)) ht

/-- A number is a word of its own. -/
theorem ofWord_number {cs : List Char} {j : Json} (h : Token.number? cs = some j) :
    Token.ofWord? cs = some (.scalar j) := by
  have hne {ds : List Char} (hd : Token.number? ds = none) : cs ≠ ds := by
    rintro rfl
    rw [hd] at h
    cases h
  rw [Token.ofWord?, if_neg (hne rfl), if_neg (hne rfl), if_neg (hne rfl), h]
  rfl

/-! ## Strings -/

theorem hexValue_hexDigit : ∀ d < 16, Lexer.hexValue? (hexDigit d) = some d := by decide

/-- One of the four digits of an escape. -/
theorem lex_hex {c : Char} {d : ℕ} (h : Lexer.hexValue? c = some d) (seen : Seen) (half : Option ℕ) (count value : ℕ)
    (ts : List Token) (rest : List Char) : lex ⟨.hex seen half count value, ts⟩ (c :: rest) =
      lex (if count < 3 then ⟨.hex seen half (count + 1) (16 * value + d), ts⟩
        else Lexer.closeHex ts seen half (16 * value + d)) rest := by
  rw [lex_cons]
  simp only [Lexer.step, h, Option.map_some, Option.bind_some]

/-- The escape of a character stands for the character. -/
theorem lex_escape (c : Char) (seen : List Char) (ts : List Token) (rest : List Char) :
    lex ⟨.text (some seen), ts⟩ (escape c ++ rest) = lex ⟨.text (some (c :: seen)), ts⟩ rest := by
  rw [escape]
  split
  · next h => subst h; rfl
  split
  · next h => subst h; rfl
  split
  · next h => subst h; rfl
  split
  · next h => subst h; rfl
  split
  · next h => subst h; rfl
  split
  · next h => rw [← Char.ofNat_toNat c, h]; rfl
  split
  · next h => rw [← Char.ofNat_toNat c, h]; rfl
  split
  · next hlt =>
    have h1 : Lexer.hexValue? (hexDigit (c.toNat / 16)) = some (c.toNat / 16) := hexValue_hexDigit _ (by omega)
    have h2 : Lexer.hexValue? (hexDigit (c.toNat % 16)) = some (c.toNat % 16) := hexValue_hexDigit _ (by omega)
    have h0 : Lexer.hexValue? '0' = some 0 := rfl
    have hstart (cs : List Char) : lex ⟨.text (some seen), ts⟩ ('\\' :: 'u' :: cs) =
        lex ⟨.hex (some seen) none 0 0, ts⟩ cs := rfl
    have hv : 16 * (16 * (16 * (16 * 0 + 0) + 0) + c.toNat / 16) + c.toNat % 16 = c.toNat := by omega
    have hclose : Lexer.closeHex ts (some seen) none c.toNat = ⟨.text (some (c :: seen)), ts⟩ := by
      simp only [Lexer.closeHex, show ¬ 0xD800 ≤ c.toNat by omega, show ¬ 0xDC00 ≤ c.toNat by omega,
        decide_false, Bool.false_and, Bool.false_eq_true, if_false, Char.ofNat_toNat]
      rfl
    simp only [List.cons_append, List.nil_append, hstart]
    rw [lex_hex h0, if_pos (by decide), lex_hex h0, if_pos (by decide), lex_hex h1, if_pos (by decide), lex_hex h2,
      if_neg (by decide), hv, hclose]
  · next hq hb _ _ _ _ _ hlt =>
    have hs : Lexer.step ⟨.text (some seen), ts⟩ c = some ⟨.text (some (c :: seen)), ts⟩ := by
      simp only [Lexer.step, Lexer.inside, if_neg hq, if_neg hb, if_neg hlt]
      rfl
    rw [List.cons_append, List.nil_append, lex_cons, hs, Option.bind_some]

theorem lex_text (ts : List Token) (rest : List Char) : ∀ cs seen : List Char,
    lex ⟨.text (some seen), ts⟩ (cs.flatMap escape ++ '"' :: rest) =
      lex ⟨.between, .text (some (String.ofList (seen.reverse ++ cs))) :: ts⟩ rest
  | [], seen => by
    rw [List.flatMap_nil, List.nil_append, List.append_nil]
    rfl
  | c :: cs, seen => by
    rw [List.flatMap_cons, List.append_assoc, lex_escape, lex_text ts rest cs, List.reverse_cons, List.append_assoc,
      List.singleton_append]

/-- A quoted string is one token. -/
theorem lex_quote (s : String) (ts : List Token) (rest : List Char) :
    lex ⟨.between, ts⟩ (quote s ++ rest) = lex ⟨.between, .text (some s) :: ts⟩ rest := by
  have h := lex_text ts rest s.toList []
  rw [List.reverse_nil, List.nil_append, String.ofList_toList] at h
  rw [← h, quote, List.cons_append, List.cons_append, List.append_assoc]
  rfl

/-! ## Values -/

/-- A punctuation character is one token. -/
theorem lex_punctuation {c : Char} {t : Token} (h : Token.ofPunctuation? c = some t) (ts : List Token)
    (rest : List Char) : lex ⟨.between, ts⟩ (c :: rest) = lex ⟨.between, t :: ts⟩ rest := by
  have hs : Lexer.step ⟨.between, ts⟩ c = some ⟨.between, t :: ts⟩ := by
    unfold Token.ofPunctuation? at h
    split at h <;> cases h <;> rfl
  rw [lex_cons, hs, Option.bind_some]

mutual

/-- The text of a value is cut into its tokens. -/
theorem lex_write {ts : List Token} {rest : List Char} (hr : Delimited rest) : ∀ j : Json,
    lex ⟨.between, ts⟩ (write j ++ rest) = lex ⟨.between, (tokens j).reverse ++ ts⟩ rest
  | .null | .unusable => by
    rw [write, tokens]
    exact lex_word (wordy_of_all rfl) rfl hr
  | .bool true => by
    rw [write, tokens]
    exact lex_word (wordy_of_all rfl) rfl hr
  | .bool false => by
    rw [write, tokens]
    exact lex_word (wordy_of_all rfl) rfl hr
  | .int i => by
    rw [write, tokens]
    exact lex_word (wordy_integer i) (ofWord_number (number_integer i)) hr
  | .float x => by
    rw [write, tokens]
    by_cases h : x.isFinite
    · rw [if_pos h]
      exact lex_word (wordy_writeFloat h) (ofWord_number (number_writeFloat h)) hr
    · have hw : writeFloat x = ['n', 'u', 'l', 'l'] := by
        rw [writeFloat, stored?, if_neg h]
        rfl
      rw [if_neg h, hw]
      exact lex_word (wordy_of_all rfl) rfl hr
  | .str s => by
    rw [write, tokens, lex_quote]
    rfl
  | .arr items => by
    rw [write, tokens, List.cons_append, lex_punctuation rfl, lex_writeItems items, List.reverse_cons,
      List.append_assoc]
    rfl
  | .obj members => by
    rw [write, tokens, List.cons_append, lex_punctuation rfl, lex_writeMembers members, List.reverse_cons,
      List.append_assoc]
    rfl

theorem lex_writeItems {ts : List Token} {rest : List Char} : ∀ items : List Json,
    lex ⟨.between, ts⟩ (writeItems items ++ rest) = lex ⟨.between, (tokensItems items).reverse ++ ts⟩ rest
  | [] => by
    rw [writeItems, tokensItems, List.singleton_append, lex_punctuation rfl]
    rfl
  | [j] => by
    rw [writeItems, tokensItems, List.append_assoc, lex_write (by rintro _ ⟨⟩; rfl) j, List.singleton_append,
      lex_punctuation rfl, List.reverse_append]
    rfl
  | j :: j' :: items => by
    rw [writeItems, tokensItems, List.append_assoc, lex_write (by rintro _ ⟨⟩; rfl) j, List.cons_append,
      lex_punctuation rfl, lex_writeItems (j' :: items), List.reverse_append, List.reverse_cons, List.append_assoc,
      List.append_assoc]
    rfl
    all_goals nofun

theorem lex_writeMembers {ts : List Token} {rest : List Char} : ∀ members : List (String × Json),
    lex ⟨.between, ts⟩ (writeMembers members ++ rest) = lex ⟨.between, (tokensMembers members).reverse ++ ts⟩ rest
  | [] => by
    rw [writeMembers, tokensMembers, List.singleton_append, lex_punctuation rfl]
    rfl
  | [(k, j)] => by
    simp only [writeMembers, tokensMembers, List.append_assoc, List.cons_append]
    rw [lex_quote, lex_punctuation rfl, lex_write (by rintro _ ⟨⟩; rfl) j, lex_punctuation rfl]
    simp only [List.reverse_append, List.reverse_cons, List.append_assoc, List.cons_append, List.nil_append,
      List.reverse_nil]
  | (k, j) :: m :: members => by
    simp only [writeMembers, tokensMembers, List.append_assoc, List.cons_append]
    rw [lex_quote, lex_punctuation rfl, lex_write (by rintro _ ⟨⟩; rfl) j, lex_punctuation rfl,
      lex_writeMembers (m :: members)]
    simp only [List.reverse_append, List.reverse_cons, List.append_assoc, List.cons_append, List.nil_append]

end

/-- The text of a value is cut into its tokens and nothing else. -/
theorem tokens_write (j : Json) : tokens? j.write = some j.tokens := by
  have h := @lex_write [] [] nofun j
  rw [List.append_nil, List.append_nil] at h
  refine h.trans ?_
  change some (j.tokens.reverse.reverse) = _
  rw [List.reverse_reverse]

end VirtualComputer.Json
