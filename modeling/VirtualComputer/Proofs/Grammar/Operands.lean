import VirtualComputer.Proofs.Grammar.Surroundings
import VirtualComputer.Proofs.Syntax.Bare

/-!
# Operands of operators

A term without operators is read up to what follows it (`reads_atom`), any other one in its parentheses
(`reads_primary`), and suffixes extend what is read before them (`takes_suffixed`).  The terms inside brackets are
shorter than the text around them, so it is enough that the matcher of nested expressions takes those
(`TakesShorter`).
-/

namespace VirtualComputer

open Grammar Matcher

/-! ## Items between brackets -/

namespace Grammar

section Items

variable {α β : Type} {item : Matcher α} {x : β} {xs : List β} {text : β → List Char} {P : β → α → Prop} {bound : Nat}
  {rest : List Char}

/-- Items with commas between them are read up to the end of what they stand in. -/
theorem takes_separated (hitem : ∀ y ∈ x :: xs, ∀ k, Closed k → item.Takes (text y ++ k) k (P y))
    (hsolid : ∀ y ∈ x :: xs, ∀ k, skipped (text y ++ k) = text y ++ k) (hrest : Closed rest)
    (hcomma : ',' ∉ rest.head?) (hbound : xs.length ≤ bound) :
    (separated bound item).Takes (commas ((x :: xs).map text) ++ rest) rest (List.Forall₂ P (x :: xs)) := by
  obtain ⟨hx, hxs⟩ := List.forall_mem_cons.1 hitem
  obtain ⟨-, hsolid⟩ := List.forall_mem_cons.1 hsolid
  have hother : ∀ y ∈ xs, ∀ k, Closed k →
      (literal "," >>= fun _ => skip >>= fun _ => item).Takes (skipped (',' :: ' ' :: text y ++ k)) k (P y) := by
    intro y hy k hk
    refine Reads.bind (reads_char rfl (' ' :: text y ++ k)) fun _ _ => answers_skip_bind ?_
    rw [List.cons_append, skipped_space, hsolid y hy]
    exact hxs y hy k hk
  have hnext : ∀ y ∈ xs, ∀ k, Closed k → Closed (',' :: ' ' :: text y ++ k) :=
    fun _ _ _ _ => closed_cons (by decide) _
  have hstop : (literal "," >>= fun _ => skip >>= fun _ => item).Refuses (skipped rest) := by
    rw [hrest.skipped]
    exact Refuses.bind (refuses_literal rfl hcomma)
  have hcommas : commas ((x :: xs).map text) ++ rest =
      text x ++ (xs.flatMap (fun y => ',' :: ' ' :: text y) ++ rest) := by
    simp only [List.map_cons, commas, List.flatMap_map, List.append_assoc]
  rw [hcommas]
  refine Answers.named <| Takes.bind_skip (hx _ (items_followed hnext hrest)) fun a ha => ?_
  refine Takes.bind_skip (takes_repeated hother hnext hrest hstop hbound) fun as has => ?_
  refine Reads.bind (Refuses.optional ?_) fun _ _ => answers_pure ⟨skipped_skipped rest, .cons ha has⟩
  rw [hrest.skipped]
  exact refuses_literal rfl hcomma

/-- Items between brackets are read up to the closing one. -/
theorem reads_bracketed {opening closing : String} {o c : Char} (hopening : opening.toList = [o])
    (hclosing : closing.toList = [c]) (hc : c ∈ [')', ']', '\x7d'])
    (hitem : ∀ y ∈ xs, ∀ k, Closed k → item.Takes (text y ++ k) k (P y))
    (hsolid : ∀ y ∈ xs, ∀ k, skipped (text y ++ k) = text y ++ k) (hnone : ∀ k, Closed k → item.Refuses k)
    (hbound : xs.length ≤ bound) (rest : List Char) :
    (bracketed bound opening closing item).Reads (o :: (commas (xs.map text) ++ c :: rest)) rest
      (List.Forall₂ P xs) := by
  have hend : Closed (c :: rest) := closed_cons (List.mem_append_left [',', ';'] hc) rest
  have hcomma : ',' ∉ (c :: rest).head? := by
    rintro ⟨⟩
    exact absurd hc (by decide)
  have hclose (as : List α) (has : List.Forall₂ P xs as) :
      (literal closing >>= fun _ => pure as).Reads (c :: rest) rest (List.Forall₂ P xs) :=
    Reads.bind (reads_char hclosing rest) fun _ _ => answers_pure ⟨rfl, has⟩
  refine Reads.bind (reads_char hopening _) fun _ _ => answers_skip_bind ?_
  cases xs with
  | nil =>
    rw [List.map_nil, commas, List.nil_append, hend.skipped]
    have hrefuses : (separated bound item).Refuses (c :: rest) := (Refuses.bind (hnone _ hend)).named
    refine Reads.bind (Refuses.optional hrefuses) ?_
    rintro _ rfl
    refine answers_skip_bind ?_
    rw [hend.skipped]
    exact hclose [] .nil
  | cons x xs =>
    have hskipped : skipped (commas ((x :: xs).map text) ++ c :: rest) = commas ((x :: xs).map text) ++ c :: rest := by
      rw [List.map_cons, commas, List.append_assoc]
      exact hsolid x List.mem_cons_self _
    rw [hskipped]
    have hlength : xs.length ≤ bound := by
      rw [List.length_cons] at hbound
      omega
    refine Answers.bind (Answers.optional (takes_separated hitem hsolid hend hcomma hlength)) ?_
    rintro o r ⟨as, rfl, hr, has⟩
    refine answers_skip_bind ?_
    rw [hr, hend.skipped]
    exact hclose as has

end Items

/-! ## Trees of terms -/

/-- An expression is the tree of a term, positions aside. -/
def Means (t : Term) (e : Expr) : Prop :=
  e.bare = t.tree

theorem means_all {ts : List Term} {es : List Expr} (h : List.Forall₂ Means ts es) :
    es.map Expr.bare = ts.map Term.tree := by
  induction h with
  | nil => rfl
  | cons h _ ih => rw [List.map_cons, List.map_cons, h, ih]

theorem means_properties {ps : List (Key × Term)} {qs : List (String × Expr)}
    (h : List.Forall₂ (fun p q => q.1 = p.1.value ∧ Means p.2 q.2) ps qs) :
    qs.map (fun q => (q.1, q.2.bare)) = ps.map fun p => (p.1.value, p.2.tree) := by
  induction h with
  | nil => rfl
  | cons h _ ih => rw [List.map_cons, List.map_cons, h.1, h.2, ih]

/-- Steps over the rest of a term make trees of it if each one does. -/
theorem means_foldl {α β : Type} {f : Term → β → Term} {g : Expr → α → Expr} {xs : List β} {as : List α}
    (h : List.Forall₂ (fun x a => ∀ t e, Means t e → Means (f t x) (g e a)) xs as) {t : Term} {e : Expr}
    (he : Means t e) : Means (xs.foldl f t) (as.foldl g e) := by
  induction h generalizing t e with
  | nil => exact he
  | cons h _ ih => exact ih (h t e he)

/-- A matcher takes the terms whose texts are shorter than a bound, up to what closes the place where they stand, and
refuses that itself. -/
structure TakesShorter (bound : Nat) (expression : Matcher Expr) : Prop where
  takes : ∀ (t : Term) (rest : List Char), t.text.length < bound → Closed rest →
    expression.Takes (t.text ++ rest) rest (Means t)
  refuses : ∀ rest, Closed rest → expression.Refuses rest

/-- A matcher takes the terms as they are written where a rank is needed, if their texts are not longer than a bound. -/
def TakesAt (bound rank : Nat) (p : Matcher Expr) : Prop :=
  ∀ (t : Term) (rest : List Char), (Term.textAt rank t).length ≤ bound → Follows rank rest →
    p.Takes (Term.textAt rank t ++ rest) rest (Means t)

/-! ## Literals -/

section Literals

variable {cs rest : List Char} {Q : Expr → List Char → Prop}

theorem refuses_truth (htrue : splitKeyword "true" cs = none) (hfalse : splitKeyword "false" cs = none) :
    truth.Refuses cs :=
  Refuses.named <| refuses_orElse (Refuses.bind (refuses_scan htrue)) (Refuses.bind (refuses_scan hfalse))

theorem reads_truth (b : Bool) (hrest : ∀ c ∈ rest.head?, isWordChar c = false) :
    truth.Reads ((Term.bool b).text ++ rest) rest (· = b) := by
  refine Answers.named ?_
  cases b with
  | true =>
    rw [Term.text]
    exact Answers.orElse <| Reads.bind (reads_scan (splitKeyword_run (by decide) hrest (by decide))) fun _ _ =>
      answers_pure ⟨rfl, rfl⟩
  | false =>
    rw [Term.text]
    have hother : splitKeyword "true" (['f', 'a', 'l', 's', 'e'] ++ rest) = none :=
      splitKeyword_none (by decide) hrest (by decide)
    exact Refuses.orElse (Refuses.bind (refuses_scan hother)) <|
      Reads.bind (reads_scan (splitKeyword_run (by decide) hrest (by decide))) fun _ _ => answers_pure ⟨rfl, rfl⟩

theorem reads_key (key : Key) (hrest : ∀ c ∈ rest.head?, isWordChar c = false) :
    (name.orElse do
      let cs ← lexeme splitString
      pure (stringValue cs)).Reads (key.text ++ rest) rest (· = key.value) := by
  cases key with
  | name x => exact Answers.orElse (reads_name x hrest)
  | quoted q s =>
    refine Refuses.orElse (refuses_name ?_) <| Reads.bind (reads_lexeme (splitString_enclose q s rest)) ?_
    · rintro c ⟨⟩
      cases q <;> rfl
    · rintro _ rfl
      exact answers_pure ⟨rfl, stringValue_enclose q s⟩

/-- The words among the literals. -/
def literalWords : List String := ["true", "false", "null"]

theorem literalWords_none (h : ∀ c ∈ cs.head?, isWordChar c = false) :
    ∀ w ∈ literalWords, splitKeyword w cs = none := by
  intro w hw
  exact splitKeyword_none List.all_nil h (by revert w; decide)

/-- What begins neither with a digit nor with a quote may still be another literal. -/
theorem answers_unquoted {f g : List Char → Span → Expr} {others : List (Matcher Expr)}
    (hcs : ∀ c ∈ cs.head?, c.isDigit = false ∧ c ≠ '"' ∧ c ≠ '\'') (h : (firstOf others).Answers cs Q) :
    (firstOf (spanned (lexeme splitNumber) f :: spanned (lexeme splitString) g :: others)).Answers cs Q :=
  Refuses.orElse (refuses_number fun c hc => (hcs c hc).1).spanned <|
    Refuses.orElse (refuses_string (fun hc => (hcs _ hc).2.1 rfl) fun hc => (hcs _ hc).2.2 rfl).spanned h

variable {bound : Nat} {expression : Matcher Expr}

/-- What is none of the literals is refused. -/
theorem refuses_literalExpr (hdigit : ∀ c ∈ cs.head?, c.isDigit = false) (hdouble : '"' ∉ cs.head?)
    (hsingle : '\'' ∉ cs.head?) (hword : ∀ w ∈ literalWords, splitKeyword w cs = none) (hlist : '[' ∉ cs.head?)
    (hobject : '\x7b' ∉ cs.head?) : (literalExpr bound expression).Refuses cs := by
  refine Refuses.named <| refuses_firstOf ?_
  simp only [List.forall_mem_cons]
  refine ⟨?number, ?string, ?truth, ?null, ?list, ?object, nofun⟩
  case number => exact (refuses_number hdigit).spanned
  case string => exact (refuses_string hdouble hsingle).spanned
  case truth => exact (refuses_truth (hword _ (by decide)) (hword _ (by decide))).spanned
  case null => exact (refuses_lexeme (hword _ (by decide))).spanned
  case list => exact (Refuses.named (Refuses.bind (refuses_literal rfl hlist))).spanned
  case object => exact (Refuses.named (Refuses.bind (refuses_literal rfl hobject))).spanned

/-- What begins with a bracket is a list or an object. -/
theorem answers_bracket {c : Char} (hc : c ∈ ['[', '\x7b'])
    (h : (firstOf [
      spanned (named (bracketed bound "[" "]" expression)) Expr.list,
      spanned (named (bracketed bound "\x7b" "\x7d" (property expression))) Expr.object]).Answers (c :: cs) Q) :
    (literalExpr bound expression).Answers (c :: cs) Q := by
  have hall : ∀ c ∈ ['[', '\x7b'], isWordChar c = false ∧ c.isDigit = false ∧ c ≠ '"' ∧ c ≠ '\'' :=
    List.all_iff_forall_prop.1 (by decide)
  obtain ⟨hword, hhead⟩ := hall c hc
  have hwords : ∀ w ∈ literalWords, splitKeyword w (c :: cs) = none :=
    literalWords_none (by rintro d ⟨⟩; exact hword)
  refine Answers.named <| answers_unquoted (by rintro d ⟨⟩; exact hhead) <| Refuses.orElse ?truth <|
    Refuses.orElse ?null h
  case truth => exact (refuses_truth (hwords _ (by decide)) (hwords _ (by decide))).spanned
  case null => exact (refuses_lexeme (hwords _ (by decide))).spanned

theorem reads_numberLiteral (n : NumberLiteral) (hrest : Breaks rest) :
    (literalExpr bound expression).Reads (n.text ++ rest) rest (Means (.number n)) := by
  refine Answers.named <| Answers.orElse <| Answers.spanned (reads_lexeme (splitNumber_text n hrest)) ?_
  rintro cs s r ⟨hr, rfl⟩
  exact ⟨hr, congrArg (Expr.num · .none) (numberValue_text n)⟩

theorem reads_stringLiteral (q : Quote) (s : String) :
    (literalExpr bound expression).Reads (q.enclose s ++ rest) rest (Means (.string q s)) := by
  have hdigit : ∀ c ∈ (q.enclose s ++ rest).head?, c.isDigit = false := by
    rintro c ⟨⟩
    cases q <;> rfl
  refine Answers.named <| Refuses.orElse (refuses_number hdigit).spanned <| Answers.orElse <|
    Answers.spanned (reads_lexeme (splitString_enclose q s rest)) ?_
  rintro cs span r ⟨hr, rfl⟩
  exact ⟨hr, congrArg (Expr.str · .none) (stringValue_enclose q s)⟩

theorem reads_truthLiteral (b : Bool) (hrest : ∀ c ∈ rest.head?, isWordChar c = false) :
    (literalExpr bound expression).Reads ((Term.bool b).text ++ rest) rest (Means (.bool b)) := by
  have hhead : ∀ c ∈ ((Term.bool b).text ++ rest).head?, c.isDigit = false ∧ c ≠ '"' ∧ c ≠ '\'' := by
    cases b <;> (rintro c ⟨⟩; decide)
  refine Answers.named <| answers_unquoted hhead <| Answers.orElse <| Answers.spanned (reads_truth b hrest) ?_
  rintro _ s r ⟨hr, rfl⟩
  exact ⟨hr, rfl⟩

theorem reads_nullLiteral (hrest : ∀ c ∈ rest.head?, isWordChar c = false) :
    (literalExpr bound expression).Reads (Term.null.text ++ rest) rest (Means .null) := by
  rw [Term.text]
  have hhead : ∀ c ∈ (['n', 'u', 'l', 'l'] ++ rest).head?, c.isDigit = false ∧ c ≠ '"' ∧ c ≠ '\'' := by
    rintro c ⟨⟩
    decide
  have hother (w : String) (hw : ['n', 'u', 'l', 'l'] ≠ w.toList) :
      splitKeyword w (['n', 'u', 'l', 'l'] ++ rest) = none := splitKeyword_none (by decide) hrest hw
  refine Answers.named <| answers_unquoted hhead <|
    Refuses.orElse (refuses_truth (hother _ (by decide)) (hother _ (by decide))).spanned <| Answers.orElse <|
    Answers.spanned (reads_lexeme (splitKeyword_run (by decide) hrest (by decide))) ?_
  rintro _ s r ⟨hr, -⟩
  exact ⟨hr, rfl⟩

/-- A name that is not reserved is no literal. -/
theorem name_refuses_literalExpr (x : Name) (hrest : ∀ c ∈ rest.head?, isWordChar c = false) :
    (literalExpr bound expression).Refuses (x.text ++ rest) := by
  obtain ⟨c, hc, hstart⟩ := x.start
  have hword : isWordChar c := x.wordy c (List.mem_of_mem_head? hc)
  have hhead : (x.text ++ rest).head? = some c := by
    rw [List.head?_append, Option.mem_def.1 hc]
    rfl
  have hne (d : Char) (hd : isWordChar d = false) : d ∉ (x.text ++ rest).head? := by
    rw [hhead]
    rintro ⟨⟩
    rw [hword] at hd
    cases hd
  refine refuses_literalExpr ?_ (hne _ rfl) (hne _ rfl) ?_ (hne _ rfl) (hne _ rfl)
  · rw [hhead]
    rintro d ⟨⟩
    exact hstart
  · intro w hw
    exact splitKeyword_none (List.all_eq_true.2 x.wordy) hrest (name_ne_reserved x (by revert w; decide))

end Literals

/-! ## Nested terms -/

section Nested

variable {bound : Nat} {expression : Matcher Expr} (hnested : TakesShorter bound expression) {rest : List Char}

include hnested

/-- Items of a list and arguments are read as terms. -/
theorem reads_terms {opening closing : String} {o c : Char} (hopening : opening.toList = [o])
    (hclosing : closing.toList = [c]) (hc : c ∈ [')', ']', '\x7d']) {ts : List Term}
    (hlength : (commas (ts.map Term.text)).length + 2 ≤ bound) (rest : List Char) :
    (bracketed bound opening closing expression).Reads (o :: (commas (ts.map Term.text) ++ c :: rest)) rest
      (List.Forall₂ Means ts) := by
  have hcount := length_le_commas (ts.map Term.text)
  rw [List.length_map] at hcount
  refine reads_bracketed hopening hclosing hc ?_ ?_ hnested.refuses (by omega) rest
  · intro t ht k hk
    have hle := length_le_commas_of_mem (List.mem_map_of_mem (f := Term.text) ht)
    exact hnested.takes t k (by omega) hk
  · exact fun t _ k => ((Term.begins_text t).append k).skipped

theorem takes_property (p : Key × Term) (hlength : p.2.text.length < bound) (hrest : Closed rest) :
    (property expression).Takes (Term.propertyText p ++ rest) rest
      fun q => q.1 = p.1.value ∧ Means p.2 q.2 := by
  have hbegins : skipped (p.2.text ++ rest) = p.2.text ++ rest := ((Term.begins_text p.2).append rest).skipped
  rw [Term.propertyText, List.append_assoc]
  refine Answers.named <| Reads.bind (reads_key p.1 (by rintro c ⟨⟩; rfl)) fun key hkey => answers_skip_bind ?_
  refine Reads.bind (reads_char rfl (' ' :: (p.2.text ++ rest))) fun _ _ => answers_skip_bind ?_
  rw [skipped_space, hbegins]
  refine Answers.bind (hnested.takes p.2 rest hlength hrest) ?_
  rintro e r ⟨hr, he⟩
  exact answers_pure ⟨hr, hkey, he⟩

omit hnested in
theorem refuses_property (hrest : Closed rest) : (property expression).Refuses rest := by
  refine Refuses.named <| Refuses.bind <| refuses_orElse (refuses_name hrest.word)
    (Refuses.bind (refuses_string ?_ ?_))
  · exact fun h => absurd (hrest _ h) (by decide)
  · exact fun h => absurd (hrest _ h) (by decide)

/-- Keys and values of an object are read as they are written. -/
theorem reads_properties {ps : List (Key × Term)}
    (hlength : (commas (ps.map Term.propertyText)).length + 2 ≤ bound) (rest : List Char) :
    (bracketed bound "\x7b" "\x7d" (property expression)).Reads
      ('\x7b' :: (commas (ps.map Term.propertyText) ++ '\x7d' :: rest)) rest
      (List.Forall₂ (fun p q => q.1 = p.1.value ∧ Means p.2 q.2) ps) := by
  have hcount := length_le_commas (ps.map Term.propertyText)
  rw [List.length_map] at hcount
  refine reads_bracketed rfl rfl (by decide) ?_ ?_ (fun _ => refuses_property) (by omega) rest
  · intro p hp k hk
    have hle := length_le_commas_of_mem (List.mem_map_of_mem (f := Term.propertyText) hp)
    rw [Term.propertyText, List.length_append, List.length_cons, List.length_cons] at hle
    exact takes_property hnested p (by omega) hk
  · rintro ⟨key, t⟩ _ k
    rw [Term.propertyText, List.append_assoc]
    cases key with
    | name x => exact ((Term.begins_text (.name x)).append _).skipped
    | quoted q s => exact ((Term.begins_text (.string q s)).append _).skipped

theorem reads_list {ts : List Term} (hlength : (Term.list ts).text.length ≤ bound) (rest : List Char) :
    (literalExpr bound expression).Reads ((Term.list ts).text ++ rest) rest (Means (.list ts)) := by
  rw [Term.text_list, List.length_cons, List.length_append] at hlength
  rw [Term.text_list, List.cons_append, List.append_assoc, List.singleton_append]
  refine answers_bracket (by decide) <| Answers.orElse <|
    Answers.spanned (reads_terms hnested rfl rfl (by decide) hlength rest).named ?_
  rintro es s r ⟨hr, hes⟩
  exact ⟨hr, by rw [Means, Expr.bare, Expr.bareAll_eq, means_all hes, Term.tree_list]⟩

theorem reads_object {ps : List (Key × Term)} (hlength : (Term.object ps).text.length ≤ bound) (rest : List Char) :
    (literalExpr bound expression).Reads ((Term.object ps).text ++ rest) rest (Means (.object ps)) := by
  rw [Term.text_object, List.length_cons, List.length_append] at hlength
  rw [Term.text_object, List.cons_append, List.append_assoc, List.singleton_append]
  refine answers_bracket (by decide) <|
    Refuses.orElse (Refuses.named (Refuses.bind (refuses_literal rfl (by rintro ⟨⟩)))).spanned <| Answers.orElse <|
    Answers.spanned (reads_properties hnested hlength rest).named ?_
  rintro qs s r ⟨hr, hqs⟩
  exact ⟨hr, by rw [Means, Expr.bare, Expr.bareProperties_eq, means_properties hqs, Term.tree_object]⟩

/-- A term without operators is read up to what follows it. -/
theorem reads_atom (t : Term) (hrank : t.rank = 9) (hlength : t.text.length ≤ bound) (hrest : Breaks rest) :
    (primary bound expression).Reads (t.text ++ rest) rest (Means t) := by
  cases t with
  | number n => exact Answers.named <| Answers.orElse (reads_numberLiteral n hrest)
  | string q s => exact Answers.named <| Answers.orElse (reads_stringLiteral q s)
  | bool b => exact Answers.named <| Answers.orElse (reads_truthLiteral b hrest.word)
  | null => exact Answers.named <| Answers.orElse (reads_nullLiteral hrest.word)
  | name x =>
    refine Answers.named <| Refuses.orElse (name_refuses_literalExpr x hrest.word) <| Answers.orElse <|
      Answers.spanned (reads_name x hrest.word) ?_
    rintro _ s r ⟨hr, rfl⟩
    exact ⟨hr, rfl⟩
  | list ts => exact Answers.named <| Answers.orElse (reads_list hnested hlength rest)
  | object ps => exact Answers.named <| Answers.orElse (reads_object hnested hlength rest)
  | unary | yield => cases hrank
  | member | index | call => cases hrank
  | binary op => cases op <;> cases hrank

/-- A term between brackets is read as it is on its own. -/
theorem answers_enclosed {α : Type} {opening closing : String} {o c : Char} (hopening : opening.toList = [o])
    (hclosing : closing.toList = [c]) (hc : c ∈ [')', ']', '\x7d']) {t : Term} (hlength : t.text.length < bound)
    {f : Expr → Matcher α} {Q : α → List Char → Prop} (hf : ∀ e, Means t e → (f e).Answers rest Q) :
    Matcher.Answers (do
      literal opening
      skip
      let e ← expression
      skip
      literal closing
      f e) (o :: (t.text ++ c :: rest)) Q := by
  have hend : Closed (c :: rest) := closed_cons (List.mem_append_left [',', ';'] hc) rest
  refine Reads.bind (reads_char hopening _) fun _ _ => answers_skip_bind ?_
  rw [((Term.begins_text t).append _).skipped]
  refine Takes.bind_skip (hnested.takes t _ hlength hend) fun e he => ?_
  rw [hend.skipped]
  exact Reads.bind (reads_char hclosing rest) fun _ _ => hf e he

/-- A term that does not stand in parentheses for its operators stands in those of its own. -/
theorem reads_primary (t : Term) (hlength : (Term.textAt 9 t).length ≤ bound) (hrest : Breaks rest) :
    (primary bound expression).Reads (Term.textAt 9 t ++ rest) rest (Means t) := by
  by_cases hrank : t.rank < 9
  · rw [Term.textAt_of_rank hrank, List.length_cons, List.length_append, List.length_singleton] at hlength
    rw [Term.textAt_of_rank hrank, List.cons_append, List.append_assoc, List.singleton_append]
    have hwords : ∀ w ∈ literalWords, splitKeyword w ('(' :: (t.text ++ ')' :: rest)) = none :=
      literalWords_none (by rintro c ⟨⟩; rfl)
    refine Answers.named <| Refuses.orElse (refuses_literalExpr (by rintro c ⟨⟩; rfl) (by rintro ⟨⟩) (by rintro ⟨⟩)
      hwords (by rintro ⟨⟩) (by rintro ⟨⟩)) <| Refuses.orElse (refuses_name (by rintro c ⟨⟩; rfl)).spanned <|
      Answers.orElse ?_
    exact answers_enclosed hnested rfl rfl (by decide) (by omega) fun e he => answers_pure ⟨rfl, he⟩
  · have hrank : t.rank = 9 := by
      have := t.rank_le
      omega
    rw [Term.textAt_of_le (Nat.le_of_eq hrank.symm)] at hlength ⊢
    exact reads_atom hnested t hrank hlength hrest

end Nested

/-! ## Suffixes -/

/-- A suffix as it is written. -/
inductive Tail where
  | member (x : Name)
  | index (key : Term)
  | call (args : List Term)

namespace Tail

def text : Tail → List Char
  | .member x => '.' :: x.text
  | .index k => '[' :: (k.text ++ [']'])
  | .call args => '(' :: (commas (args.map Term.text) ++ [')'])

/-- The term with a suffix. -/
def apply (t : Term) : Tail → Term
  | .member x => .member t x
  | .index k => .index t k
  | .call args => .call t args

theorem text_apply (t : Term) (s : Tail) : Term.textAt 8 (s.apply t) = Term.textAt 8 t ++ s.text := by
  cases s with
  | member x => rfl
  | index k => rfl
  | call args =>
    have htext : Term.textAt 8 (.call t args) = (Term.call t args).text := Term.textAt_of_le (Nat.le_refl 8)
    rw [apply, htext, Term.text_call]
    rfl

theorem breaks (s : Tail) (rest : List Char) : Breaks (s.text ++ rest) := by
  cases s with
  | member x =>
    obtain ⟨c, hc, hstart⟩ := x.start
    refine ⟨by rintro c ⟨⟩; rfl, ?_⟩
    intro d ds h
    have htail : (x.text ++ rest).head? = some d := congrArg List.head? (List.cons.inj h).2
    rw [List.head?_append, Option.mem_def.1 hc] at htail
    cases htail
    exact hstart
  | index k => exact ⟨by rintro c ⟨⟩; rfl, nofun⟩
  | call args => exact ⟨by rintro c ⟨⟩; rfl, nofun⟩

end Tail

/-- A term is a head and its suffixes. -/
def HasTails (t : Term) : Prop :=
  ∃ (head : Term) (tails : List Tail), t = tails.foldl Tail.apply head ∧
    Term.textAt 8 t = Term.textAt 9 head ++ tails.flatMap Tail.text

theorem HasTails.apply {t : Term} (h : HasTails t) (s : Tail) : HasTails (s.apply t) := by
  obtain ⟨head, tails, rfl, htext⟩ := h
  refine ⟨head, tails ++ [s], ?_, ?_⟩
  · rw [List.foldl_append]
    rfl
  · rw [Tail.text_apply, htext, List.flatMap_append, List.flatMap_singleton, List.append_assoc]

theorem hasTails_of_rank {t : Term} (h : t.rank ≠ 8) : HasTails t :=
  ⟨t, [], rfl, by rw [Term.textAt_succ h, List.flatMap_nil, List.append_nil]⟩

theorem hasTails : ∀ t : Term, HasTails t
  | .member t x => (hasTails t).apply (.member x)
  | .index t k => (hasTails t).apply (.index k)
  | .call t args => (hasTails t).apply (.call args)
  | .binary op _ _ => hasTails_of_rank (Nat.ne_of_lt (Nat.lt_of_le_of_lt op.level_le (by decide)))
  | .number _ | .string .. | .bool _ | .null | .name _ | .list _ | .object _ | .unary .. | .yield _ =>
    hasTails_of_rank nofun

section Nested

variable {bound : Nat} {expression : Matcher Expr} (hnested : TakesShorter bound expression) {rest : List Char}

theorem refuses_suffix (hrest : ∀ c ∈ rest.head?, c ∉ ['(', '.', '[']) : (suffix bound expression).Refuses rest := by
  have hne (c : Char) (hc : c ∈ ['(', '.', '[']) : c ∉ rest.head? := fun h => hrest c h hc
  refine Refuses.spanned <| Refuses.named <| refuses_firstOf ?_
  simp only [List.forall_mem_cons]
  refine ⟨?call, ?member, ?index, nofun⟩
  case call => exact (Refuses.bind (Refuses.bind (refuses_literal rfl (hne _ (by decide))))).named
  case member => exact (Refuses.bind (refuses_literal rfl (hne _ (by decide)))).named
  case index => exact (Refuses.bind (refuses_literal rfl (hne _ (by decide)))).named

include hnested

theorem reads_suffix (s : Tail) (hlength : s.text.length ≤ bound) (hrest : Breaks rest) :
    (suffix bound expression).Reads (s.text ++ rest) rest
      fun p => ∀ t e, Means t e → Means (s.apply t) (p.1.apply e p.2) := by
  refine Answers.spanned
    (Q := fun s' r => r = rest ∧ ∀ t e range, Means t e → Means (s.apply t) (s'.apply e range)) (Answers.named ?_)
    fun s' range r h => ⟨h.1, fun t e he => h.2 t e range he⟩
  cases s with
  | member x =>
    have hcall : (literal "(").Refuses ('.' :: (x.text ++ rest)) := refuses_literal rfl (by rintro ⟨⟩)
    refine Refuses.orElse (Refuses.bind (Refuses.bind hcall)).named <| Answers.orElse <| Answers.named ?_
    have hskipped : skipped (x.text ++ rest) = x.text ++ rest := ((Term.begins_text (.name x)).append rest).skipped
    refine Reads.bind (reads_char rfl (x.text ++ rest)) fun _ _ => answers_skip_bind ?_
    rw [hskipped]
    refine Reads.bind (reads_name x hrest.word) ?_
    rintro _ rfl
    exact answers_pure ⟨rfl, fun t e range he => congrArg (Expr.member · _ .none) he⟩
  | index k =>
    have htext : (Tail.index k).text ++ rest = '[' :: (k.text ++ ']' :: rest) := by
      rw [Tail.text, List.cons_append, List.append_assoc, List.singleton_append]
    have hcall : (literal "(").Refuses ('[' :: (k.text ++ ']' :: rest)) := refuses_literal rfl (by rintro ⟨⟩)
    have hmember : (literal ".").Refuses ('[' :: (k.text ++ ']' :: rest)) := refuses_literal rfl (by rintro ⟨⟩)
    rw [Tail.text, List.length_cons, List.length_append, List.length_singleton] at hlength
    rw [htext]
    refine Refuses.orElse (Refuses.bind (Refuses.bind hcall)).named <| Refuses.orElse (Refuses.bind hmember).named <|
      Answers.orElse <| Answers.named ?_
    refine answers_enclosed hnested rfl rfl (by decide) (by omega) fun key hkey => answers_pure ⟨rfl, ?_⟩
    exact fun t e range he => congrArg₂ (Expr.index · · .none) he hkey
  | call args =>
    have htext : (Tail.call args).text ++ rest = '(' :: (commas (args.map Term.text) ++ ')' :: rest) := by
      rw [Tail.text, List.cons_append, List.append_assoc, List.singleton_append]
    rw [Tail.text, List.length_cons, List.length_append] at hlength
    rw [htext]
    refine Answers.orElse <| Answers.named ?_
    refine Reads.bind (reads_terms hnested rfl rfl (by decide) hlength rest) fun es hes => ?_
    refine answers_pure ⟨rfl, fun t e range he => ?_⟩
    rw [Means, Suffix.apply, Expr.bare, Expr.bareAll_eq, means_all hes, he, Tail.apply, Term.tree_call]

/-- A term is read with the suffixes that follow its head. -/
theorem takes_suffixed : TakesAt bound 8 (suffixed bound expression) := by
  intro t rest hlength hrest
  -- Suffixes group to the left, so the term is taken apart down to its head before any of it is read.
  obtain ⟨head, tails, rfl, htext⟩ := hasTails t
  have hmem (s : Tail) (hs : s ∈ tails) : s.text.length ≤ bound := by
    have hle := length_le_flatMap_of_mem (f := Tail.text) hs
    rw [htext, List.length_append] at hlength
    omega
  have hitem : ∀ s ∈ tails, ∀ k, Breaks k → (suffix bound expression).Takes (skipped (s.text ++ k)) k
      fun p => ∀ t e, Means t e → Means (s.apply t) (p.1.apply e p.2) := by
    intro s hs k hk
    have hskipped : skipped (s.text ++ k) = s.text ++ k := by
      cases s <;> exact skipped_cons rfl (by decide) _
    rw [hskipped]
    exact (reads_suffix hnested s (hmem s hs) hk).takes
  have hnext : ∀ s ∈ tails, ∀ k, Breaks k → Breaks (s.text ++ k) := fun s _ k _ => s.breaks k
  have hstop : (suffix bound expression).Refuses (skipped rest) := by
    refine refuses_suffix fun c hc => ?_
    obtain hend | ⟨op, -, hop⟩ := hrest.head c hc
    · have hall : ∀ c ∈ closers, c ∉ ['(', '.', '['] := List.all_iff_forall_prop.1 (by decide)
      exact hall c hend
    · cases op <;> cases hop <;> decide
  have hcount : tails.length ≤ bound := by
    have hle := length_le_flatMap (f := Tail.text) fun s (_ : s ∈ tails) => by cases s <;> exact List.cons_ne_nil _ _
    rw [htext, List.length_append] at hlength
    omega
  have hhead : (Term.textAt 9 head).length ≤ bound := by
    rw [htext, List.length_append] at hlength
    omega
  rw [htext, List.append_assoc]
  refine Answers.named <| Takes.bind_skip
    (reads_primary hnested head hhead (items_followed hnext hrest.breaks)).takes fun e he => ?_
  refine Answers.bind (takes_repeated hitem hnext hrest.breaks hstop hcount) ?_
  rintro ss r ⟨hr, hss⟩
  exact answers_pure ⟨hr, means_foldl hss he⟩

end Nested

end Grammar

end VirtualComputer
