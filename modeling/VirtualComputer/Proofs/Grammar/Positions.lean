import Mathlib.Logic.Relation
import VirtualComputer.Proofs.Grammar.Ranges

/-!
# Source positions

Every rule of the grammar reads the nodes of its value in a row (`rows_expression`, `rows_statement`).  Operators and
suffixes have no rule of their own: they join the ranges of what they apply to (`Operator.apply_set`,
`Suffix.apply_set`), which lie in order, and a call goes on behind its callee because its arguments are in brackets.  So
in the tree of a text every node has its place in the text, within the node above it (`parse_positions`).
-/

namespace VirtualComputer.Grammar

open Matcher

/-! ## Lexemes -/

section Lexemes

variable {cs taken rest : List Char}

theorem splitLiteral_append {ws : List Char} (h : splitLiteral ws cs = some (taken, rest)) :
    taken = ws ∧ cs = taken ++ rest := by
  induction ws generalizing cs taken with
  | nil =>
    cases h
    exact ⟨rfl, rfl⟩
  | cons w ws ih =>
    cases cs with
    | nil => cases h
    | cons c cs =>
      rw [splitLiteral] at h
      split at h
      · next hc =>
        obtain ⟨⟨t, r⟩, ht, he⟩ := Option.map_eq_some_iff.1 h
        cases he
        obtain ⟨rfl, rfl⟩ := ih ht
        exact ⟨by rw [hc], rfl⟩
      · cases h

theorem splitWord_append (h : splitWord cs = (taken, rest)) : cs = taken ++ rest := by
  cases h
  exact List.takeWhile_append_dropWhile.symm

theorem splitKeyword_append {word : String} (h : splitKeyword word cs = some (taken, rest)) : cs = taken ++ rest := by
  unfold splitKeyword at h
  rcases hw : splitWord cs with ⟨run, left⟩
  simp only [hw] at h
  split at h
  · cases h
    exact splitWord_append hw
  · cases h

theorem splitName_append (h : splitName cs = some (taken, rest)) : cs = taken ++ rest := by
  unfold splitName at h
  rcases hw : splitWord cs with ⟨run, left⟩
  simp only [hw] at h
  split at h
  · cases h
    exact splitWord_append hw
  · cases h

theorem splitFraction_append (h : splitFraction cs = (taken, rest)) : cs = taken ++ rest := by
  revert h
  fun_cases splitFraction cs with
  | case1 d cs hd =>
    rintro ⟨⟩
    simp [List.takeWhile_append_dropWhile]
  | case2 d cs hd =>
    rintro ⟨⟩
    rfl
  | case3 =>
    rintro ⟨⟩
    rfl

theorem splitExponent_append (h : splitExponent cs = (taken, rest)) : cs = taken ++ rest := by
  revert h
  unfold splitExponent
  split
  · split
    next sign ds hsign =>
      split
      · rintro ⟨⟩
        simp only [List.cons_append, List.append_assoc, List.takeWhile_append_dropWhile]
        split at hsign <;> cases hsign <;> rfl
      · rintro ⟨⟩
        rfl
  · rintro ⟨⟩
    rfl

theorem splitNumber_append (h : splitNumber cs = some (taken, rest)) : cs = taken ++ rest := by
  unfold splitNumber at h
  rcases hf : splitFraction (cs.dropWhile Char.isDigit) with ⟨fraction, left⟩
  rcases he : splitExponent left with ⟨exponent, left'⟩
  simp only [hf, he] at h
  split at h
  · cases h
  · cases h
    rw [List.append_assoc, List.append_assoc, ← splitExponent_append he, ← splitFraction_append hf,
      List.takeWhile_append_dropWhile]

theorem splitContents_append {quote : Char} (h : splitContents quote cs = some (taken, rest)) : cs = taken ++ rest := by
  fun_induction splitContents quote cs generalizing taken with
  | case1 => cases h
  | case2 c cs ih =>
    obtain ⟨⟨t, r⟩, ht, he⟩ := Option.map_eq_some_iff.1 h
    cases he
    rw [ih ht]
    rfl
  | case3 cs _ =>
    cases h
    rfl
  | case4 => cases h
  | case5 c cs _ _ _ ih =>
    obtain ⟨⟨t, r⟩, ht, he⟩ := Option.map_eq_some_iff.1 h
    cases he
    rw [ih ht]
    rfl

theorem splitString_append (h : splitString cs = some (taken, rest)) : cs = taken ++ rest := by
  unfold splitString at h
  split at h
  · split at h
    · obtain ⟨⟨t, r⟩, ht, he⟩ := Option.map_eq_some_iff.1 h
      cases he
      rw [splitContents_append ht]
      rfl
    · cases h
  · cases h

end Lexemes

theorem literal_length (text : String) :
    (literal text).Gives fun _ c c' => c.rest.length = text.toList.length + c'.rest.length := by
  refine gives_bind (gives_scan _) ?_
  rintro taken start c ⟨htaken, -⟩ _ c' hm
  cases hm
  obtain ⟨rfl, hrest⟩ := splitLiteral_append htaken
  rw [hrest, List.length_append]

theorem moves_literal (text : String) : (literal text).Moves :=
  .of_continues <| .move (moves_scan fun h => (splitLiteral_append h).2) fun _ => .pure rfl

theorem moves_keyword (word : String) : (keyword word).Moves :=
  .of_continues <| .move (gives_named (moves_scan splitKeyword_append)) fun _ => .pure rfl

theorem moves_name : name.Moves :=
  .of_continues <| .move (gives_named (moves_scan splitName_append)) fun _ => .pure rfl

theorem moves_truth : truth.Moves :=
  gives_named <| gives_orElse
    (Rows.of_continues <| .move (moves_scan splitKeyword_append) fun _ => .pure rfl)
    (Rows.of_continues <| .move (moves_scan splitKeyword_append) fun _ => .pure rfl)

/-! ## Items -/

section Items

variable {α β : Type} {nodes : α → List Node} {item : Matcher α}

/-- A sequence that begins with a text that is not empty reads some of the text. -/
theorem rows_literal_bind {text : String} {f : Unit → Matcher β} {nodes : β → List Node} (htext : text.toList ≠ [])
    (hf : (f ()).Rows nodes) :
    (literal text >>= f).Gives fun b c c' => Row (nodes b) c c' ∧ c'.rest.length < c.rest.length := by
  intro c b c' hm
  obtain ⟨⟨⟩, c₁, htaken, hm⟩ := matched_bind.1 hm
  have hrow := hf _ _ _ hm
  have hlength := literal_length text _ _ _ htaken
  have hpos := List.length_pos_iff.2 htext
  have hle := (Row.reaches hrow).length_le
  exact ⟨hrow.behind (Row.reaches (moves_literal text _ _ _ htaken)), by omega⟩

theorem rows_separated (hitem : item.Rows nodes) (bound : Nat) :
    (separated bound item).Rows (List.flatMap nodes) := by
  have hother : (literal "," >>= fun _ => skip >>= fun _ => item).Rows nodes :=
    .of_continues <| .move (moves_literal ",") fun _ => .move moves_skip fun _ => hitem.continues
  exact .named <| .of_continues <| .read hitem fun _ => .move moves_skip fun _ => .read (hother.repeated bound) fun _ =>
    .move moves_skip fun _ => .move (moves_literal ",").optional fun _ => .pure rfl

theorem rows_bracketed (hitem : item.Rows nodes) (bound : Nat) {opening : String}
    (hopening : opening.toList ≠ []) (closing : String) : (bracketed bound opening closing item).Gives fun as c c' =>
      Row (as.flatMap nodes) c c' ∧ c'.rest.length < c.rest.length := by
  refine rows_literal_bind hopening <| .of_continues <| .move moves_skip fun _ =>
    .read (rows_separated hitem bound).optional fun items => .move moves_skip fun _ =>
      .move (moves_literal closing) fun _ => .pure ?_
  cases items with
  | none => rfl
  | some items => simp

end Items

/-! ## Expressions -/

section Expressions

variable {expression : Matcher Expr} (he : expression.Rows fun e => [.expr e]) (bound : Nat)

include he

theorem rows_property :
    (property expression).Rows fun p => [.expr p.2] := by
  have hkey : (name.orElse do
      let cs ← lexeme splitString
      pure (stringValue cs)).Moves :=
    gives_orElse moves_name <|
      Rows.of_continues <| .move (gives_named (moves_scan splitString_append)) fun _ => .pure rfl
  exact .named <| .of_continues <| .move hkey fun _ => .move moves_skip fun _ => .move (moves_literal ":") fun _ =>
    .move moves_skip fun _ => .read he fun _ => .pure rfl

/-- The rules of lexemes read no nodes, the others those of their items. -/
theorem rows_literalExpr : (literalExpr bound expression).Rows fun e => [.expr e] := by
  have hscan {split : List Char → Option (List Char × List Char)}
      (hsplit : ∀ {cs taken rest}, split cs = some (taken, rest) → cs = taken ++ rest) : (lexeme split).Moves :=
    gives_named (moves_scan hsplit)
  refine .named <| gives_firstOf ?_
  simp only [List.forall_mem_cons]
  refine ⟨?number, ?string, ?truth, ?null, ?list, ?object, nofun⟩
  case number => exact Rows.spanned (fun _ => hscan splitNumber_append) (fun _ _ => rfl) nofun
  case string => exact Rows.spanned (fun _ => hscan splitString_append) (fun _ _ => rfl) nofun
  case truth => exact Rows.spanned (fun _ => moves_truth) (fun _ _ => rfl) nofun
  case null => exact Rows.spanned (fun _ => hscan splitKeyword_append) (fun _ _ => rfl) nofun
  case list =>
    refine Rows.spanned (fun _ => .named fun c es c' hm => ?_) (fun _ _ => rfl) nofun
    simp only [Node.children, List.map_eq_flatMap]
    exact (rows_bracketed he bound (by decide) "]" c es c' hm).1
  case object =>
    refine Rows.spanned (fun _ => .named fun c ps c' hm => ?_) (fun _ _ => rfl) nofun
    simp only [Node.children, List.map_eq_flatMap]
    exact (rows_bracketed (rows_property he) bound (by decide) "\x7d" c ps c' hm).1

end Expressions

/-! ### Suffixes -/

/-- The nodes in a suffix. -/
def Suffix.nodes : Suffix → List Node
  | .call args => args.map .expr
  | .member _ => []
  | .index key => [.expr key]

/-- A suffix has the range of the text between two cursors, and that is not empty. -/
def Suffix.Between (s : Suffix × Span) (c c' : Cursor) : Prop :=
  s.2 = c.place.spanTo c'.place ∧ Row s.1.nodes c c' ∧ c'.rest.length < c.rest.length

/-- The join of two ranges that lie in order. -/
theorem Place.spanTo_join {a b a' b' : Place} (ha : a.offset ≤ a'.offset) (hb : b.offset ≤ b'.offset) :
    (a.spanTo b).join (a'.spanTo b') = a.spanTo b' := by
  simp [Span.join, spanTo, ha, hb]

/-- With a suffix an expression goes on to the end of the suffix. -/
theorem Suffix.apply_set {e : Expr} {s : Suffix × Span} {a b c c' : Cursor} (he : Node.Set (.expr e) a b)
    (hc : b.Reaches c) (hs : Suffix.Between s c c') : Node.Set (.expr (s.1.apply e s.2)) a c' := by
  obtain ⟨s, range⟩ := s
  obtain ⟨rfl, hrow, hless⟩ := hs
  have hab : a.Reaches b := Row.reaches (.single he)
  have hcc := Row.reaches hrow
  obtain ⟨-, hspan, -, -⟩ := id he
  have hjoin : e.span.join (c.place.spanTo c'.place) = a.place.spanTo c'.place := by
    rw [show e.span = a.place.spanTo b.place from hspan]
    exact Place.spanTo_join (hab.trans hc).offset_le (hc.trans hcc).offset_le
  have hrow : Row (.expr e :: s.nodes) a c' := .cons (.refl a) he (hrow.behind hc)
  cases s with
  | member x => exact ⟨(hab.trans hc).trans hcc, hjoin, hrow, nofun⟩
  | index k => exact ⟨(hab.trans hc).trans hcc, hjoin, hrow, nofun⟩
  | call args =>
    -- The arguments are read, so the range of the call goes beyond that of its callee.
    have hne : e.span ≠ e.span.join (c.place.spanTo c'.place) := by
      intro heq
      have hstop := congrArg Span.stop (hspan.symm.trans (heq.trans hjoin))
      exact absurd hstop (Nat.ne_of_lt ((hc.offset_le).trans_lt (hcc.offset_lt hless)))
    refine ⟨(hab.trans hc).trans hcc, hjoin, ?_, ?_⟩
    · show Row (if _ then _ else _) a c'
      rw [if_neg hne]
      exact hrow
    · rintro f es s he hs
      cases he
      exact absurd hs hne

section Expressions

variable {expression : Matcher Expr} (he : expression.Rows fun e => [.expr e]) (bound : Nat)

include he

theorem gives_suffix : (suffix bound expression).Gives Suffix.Between := by
  have hany : (Matcher.named (firstOf [
      named do
        let args ← bracketed bound "(" ")" expression
        pure (Suffix.call args),
      named do
        literal "."
        skip
        let x ← name
        pure (Suffix.member x),
      named do
        literal "["
        skip
        let e ← expression
        skip
        literal "]"
        pure (Suffix.index e)])).Gives fun s c c' => Row s.nodes c c' ∧ c'.rest.length < c.rest.length := by
    refine gives_named <| gives_firstOf ?_
    simp only [List.forall_mem_cons]
    refine ⟨gives_named ?call, gives_named ?member, gives_named ?index, nofun⟩
    case call =>
      refine gives_bind (rows_bracketed he bound (by decide) ")") ?_
      intro args start c hargs _ c' hm
      cases hm
      rwa [Suffix.nodes, List.map_eq_flatMap]
    case member =>
      exact rows_literal_bind (by decide) <| .of_continues <| .move moves_skip fun _ => .move moves_name fun _ =>
        .pure rfl
    case index =>
      exact rows_literal_bind (by decide) <| .of_continues <| .move moves_skip fun _ => .read he fun _ =>
        .move moves_skip fun _ => .move (moves_literal "]") fun _ => .pure rfl
  intro c s c' hm
  obtain ⟨a, rfl, ha⟩ := gives_spanned hany c s c' hm
  exact ⟨rfl, ha⟩

theorem rows_primary : (primary bound expression).Rows fun e => [.expr e] := by
  have hname : (name.spanned Expr.ident).Rows fun e => [.expr e] :=
    Rows.spanned (fun _ => moves_name) (fun _ _ => rfl) nofun
  have hparenthesized : Rows (do
      literal "("
      skip
      let e ← expression
      skip
      literal ")"
      pure e) fun e => [.expr e] :=
    .of_continues <| .move (moves_literal "(") fun _ => .move moves_skip fun _ => .read he fun _ =>
      .move moves_skip fun _ => .move (moves_literal ")") fun _ => .pure rfl
  refine .named <| gives_firstOf ?_
  simp only [List.forall_mem_cons]
  exact ⟨rows_literalExpr he bound, hname, hparenthesized, nofun⟩

theorem rows_suffixed : (suffixed bound expression).Rows fun e => [.expr e] := by
  refine .named <| rows_foldl (rows_primary he bound) (gives_suffix he bound) ?_ bound
  intro e s start c c' he hs
  obtain ⟨a, b, ha, he, hb⟩ := Row.single_iff.1 he
  exact Row.single_iff.2 ⟨a, c', ha, Suffix.apply_set he hb hs, .refl c'⟩

end Expressions

/-! ### Operators -/

theorem gives_operator {α : Type} (table : List (String × α)) :
    (operator table).Gives fun a c c' => a ∈ table.map Prod.snd ∧ c.Reaches c' := by
  refine gives_firstOf ?_
  intro p hp
  obtain ⟨⟨text, a⟩, ha, rfl⟩ := List.mem_map.1 hp
  refine gives_named <| gives_bind (moves_literal text) ?_
  intro _ start c htext _ c' hm
  cases hm
  exact ⟨List.mem_map_of_mem (f := Prod.snd) ha, htext.reaches⟩

/-- The name of an operator has the range of the operation. -/
theorem builtin_set {x : String} (hx : x ∈ Node.operatorNames) {es : List Expr} {c c' : Cursor} {s : Span}
    (hs : s = c.place.spanTo c'.place) (hes : Row (es.map .expr) c c') :
    Node.Set (.expr (.builtin x es s)) c c' := by
  refine ⟨hes.reaches, hs, ?_, ?_⟩
  · show Row (if s = s then _ else _) c c'
    rwa [if_pos rfl]
  · rintro f es s he -
    cases he
    exact ⟨x, hx, rfl⟩

/-- An operator goes from the beginning of its left operand to the end of its right one. -/
theorem Operator.apply_set {op : Operator} (hop : op ∈ levels.flatten.map Prod.snd) {left right : Expr}
    {a b c c' : Cursor} (hl : Node.Set (.expr left) a b) (hb : b.Reaches c) (hr : Node.Set (.expr right) c c') :
    Node.Set (.expr (op.apply left right)) a c' := by
  have hab : a.Reaches b := Row.reaches (.single hl)
  have hcc : c.Reaches c' := Row.reaches (.single hr)
  obtain ⟨-, hlspan, -, -⟩ := id hl
  obtain ⟨-, hrspan, -, -⟩ := id hr
  have hjoin : left.span.join right.span = a.place.spanTo c'.place := by
    rw [show left.span = _ from hlspan, show right.span = _ from hrspan]
    exact Place.spanTo_join (hab.trans hb).offset_le (hb.trans hcc).offset_le
  have hrow : Row [.expr left, .expr right] a c' := .cons (.refl a) hl (.cons hb hr (.nil (.refl c')))
  cases op with
  | logic op => exact ⟨hrow.reaches, hjoin, hrow, nofun⟩
  | builtin x =>
    have hx : x ∈ Node.operatorNames := by
      refine List.mem_append_right _ ?_
      obtain ⟨p, hp, hpx⟩ := List.mem_map.1 hop
      exact List.mem_filterMap.2 ⟨p, hp, by rw [hpx]⟩
    exact builtin_set hx hjoin hrow

section Expressions

variable {operand expression : Matcher Expr} (bound : Nat)

/-- An operator of a table and an operand. -/
theorem gives_operation (ho : operand.Rows fun e => [.expr e]) {α : Type} (table : List (String × α)) :
    Gives (do
      let op ← operator table
      skip
      let e ← operand
      pure (op, e)) fun p c c' => p.1 ∈ table.map Prod.snd ∧ Row [.expr p.2] c c' := by
  refine gives_bind (gives_operator table) ?_
  rintro op start c ⟨hmem, hc⟩ p c' hm
  obtain ⟨⟨⟩, c₁, hskip, hm⟩ := matched_bind.1 hm
  obtain ⟨e, c₂, he, hm⟩ := matched_bind.1 hm
  cases hm
  exact ⟨hmem, (ho _ _ _ he).behind (hc.trans (moves_skip _ _ _ hskip).reaches)⟩

theorem rows_chain (ho : operand.Rows fun e => [.expr e]) {table : List (String × Operator)} (ht : table ∈ levels) :
    (chain bound table operand).Rows fun e => [.expr e] := by
  refine .named <| rows_foldl ho (gives_operation ho table) ?_ bound
  rintro left ⟨op, right⟩ start c c' hleft ⟨hop, hright⟩
  obtain ⟨a, b, ha, hleft, hb⟩ := Row.single_iff.1 hleft
  obtain ⟨a', b', ha', hright, hb'⟩ := Row.single_iff.1 hright
  have hmem : op ∈ levels.flatten.map Prod.snd := by
    obtain ⟨p, hp, hpop⟩ := List.mem_map.1 hop
    exact List.mem_map.2 ⟨p, List.mem_flatten_of_mem ht hp, hpop⟩
  exact Row.single_iff.2 ⟨a, b', ha, Operator.apply_set hmem hleft (hb.trans ha') hright, hb'⟩

theorem rows_unary (ho : operand.Rows fun e => [.expr e]) (n : Nat) : (unary operand n).Rows fun e => [.expr e] := by
  induction n with
  | zero => exact nofun
  | succ n ih =>
    refine .named <| gives_orElse ?_ ho
    intro c e c' hm
    obtain ⟨⟨builtin, e⟩, rfl, hmem, he⟩ := gives_spanned (gives_operation ih unaryOperators) c e c' hm
    exact .single (builtin_set (List.mem_append_left _ hmem) rfl he)

theorem rows_expressionOver (he : expression.Rows fun e => [.expr e]) :
    (expressionOver bound expression).Rows fun e => [.expr e] := by
  have hyield : (spanned (named do
      keyword "yield"
      skip
      optional expression) Expr.yield).Rows fun e => [.expr e] := by
    refine Rows.spanned (fun _ => .named <| .of_continues <| .move (moves_keyword _) fun _ => .move moves_skip fun _ =>
      Rows.continues ?_) (fun _ _ => rfl) nofun
    simp only [Node.children, List.map_eq_flatMap]
    exact he.optional
  refine .named <| gives_orElse hyield ?_
  exact List.foldrRecOn (motive := fun p => p.Rows fun e => [.expr e]) levels (chain bound)
    (rows_unary (rows_suffixed he bound) bound) fun _ h _ htable => rows_chain bound h htable

end Expressions

theorem rows_expression (n : Nat) : (expression n).Rows fun e => [.expr e] := by
  induction n with
  | zero => exact nofun
  | succ n ih => exact rows_expressionOver _ ih

/-! ## Statements -/

theorem moves_terminator : terminator.Moves :=
  .of_continues <| .move (moves_literal ";").optional fun _ => .pure rfl

section Statements

variable (bound : Nat) {expression : Matcher Expr} {statement : Matcher Stmt}
  (he : expression.Rows fun e => [.expr e]) (hs : statement.Rows fun s => [.stmt s])

include he in
theorem rows_condition : (condition expression).Rows fun e => [.expr e] :=
  .of_continues <| .move (moves_literal "(") fun _ => .move moves_skip fun _ => .read he fun _ =>
    .move moves_skip fun _ => .move (moves_literal ")") fun _ => .pure rfl

include hs in
theorem rows_block : (block bound statement).Rows fun s => [.stmt s] :=
  Rows.spanned (fun _ => .named <| .of_continues <| .move (moves_literal "\x7b") fun _ => .move moves_skip fun _ =>
      .read (hs.repeated bound) fun _ => .move moves_skip fun _ => .move (moves_literal "\x7d") fun _ =>
        .pure List.map_eq_flatMap)
    (fun _ _ => rfl) nofun

include he in
theorem rows_declaration : (declaration expression).Rows fun s => [.stmt s] := by
  have hinit : (literal "=" >>= fun _ => skip >>= fun _ => expression).Rows fun e => [.expr e] :=
    .of_continues <| .move (moves_literal "=") fun _ => .move moves_skip fun _ => he.continues
  exact Rows.spanned (fun _ => .named <| .of_continues <| .move (moves_keyword "let") fun _ => .move moves_skip fun _ =>
      .move moves_name fun _ => .move moves_skip fun _ => .read hinit.optional fun _ => .move moves_skip fun _ =>
        .move moves_terminator fun _ => .pure List.map_eq_flatMap)
    (fun _ _ => rfl) nofun

include he hs in
theorem rows_conditional : (conditional expression statement).Rows fun s => [.stmt s] := by
  have hno : Rows (named (keyword "else" >>= fun _ => skip >>= fun _ => statement)) fun s => [.stmt s] :=
    .named <| .of_continues <| .move (moves_keyword "else") fun _ => .move moves_skip fun _ => hs.continues
  exact Rows.spanned (fun _ => .named <| .of_continues <| .move (moves_keyword "if") fun _ => .move moves_skip fun _ =>
      .read (rows_condition he) fun test => .move moves_skip fun _ => .read hs fun yes => .move moves_skip fun _ =>
        .read hno.optional fun no => .pure (by simp [Node.children, List.map_eq_flatMap]))
    (fun _ _ => rfl) nofun

include he hs in
theorem rows_loop : (loop expression statement).Rows fun s => [.stmt s] :=
  Rows.spanned (fun _ => .named <| .of_continues <| .move (moves_keyword "while") fun _ => .move moves_skip fun _ =>
      .read (rows_condition he) fun _ => .move moves_skip fun _ => .read hs fun _ => .pure rfl)
    (fun _ _ => rfl) nofun

include he in
theorem rows_returning : (returning expression).Rows fun s => [.stmt s] :=
  Rows.spanned (fun _ => .named <| .of_continues <| .move (moves_keyword "return") fun _ => .move moves_skip fun _ =>
      .read he.optional fun _ => .move moves_skip fun _ => .move moves_terminator fun _ => .pure List.map_eq_flatMap)
    (fun _ _ => rfl) nofun

theorem rows_wordStatement {make : Span → Stmt} (hspan : ∀ s, (make s).span = s)
    (hchildren : ∀ s, (Node.stmt (make s)).children = []) (word : String) :
    (wordStatement word make).Rows fun s => [.stmt s] := by
  refine Rows.spanned (fun s => ?_) (fun _ s => hspan s) nofun
  simp only [hchildren]
  exact .named <| .of_continues <| .move (moves_keyword word) fun _ => .move moves_skip fun _ =>
    moves_terminator.continues

include hs in
theorem rows_attempt : (attempt bound statement).Rows fun s => [.stmt s] :=
  Rows.spanned (fun _ => .named <| .of_continues <| .move (moves_keyword "try") fun _ => .move moves_skip fun _ =>
      .read (rows_block bound hs) fun _ => .move moves_skip fun _ => .move (moves_keyword "catch") fun _ =>
        .move moves_skip fun _ => .move (moves_literal "(") fun _ => .move moves_skip fun _ => .move moves_name fun _ =>
          .move moves_skip fun _ => .move (moves_literal ")") fun _ => .move moves_skip fun _ =>
            .read (rows_block bound hs) fun _ => .pure rfl)
    (fun _ _ => rfl) nofun

include he in
theorem rows_segment : (segment expression).Rows fun s => [.segment s] := by
  have hmake : (Matcher.named (orElse (do
      literal "."
      skip
      let x ← name
      pure (Segment.property x)) (do
      literal "["
      skip
      let e ← expression
      skip
      literal "]"
      pure (Segment.key e)))).Gives fun make c c' =>
        ∀ s, (make s).span = s ∧ Row (Node.segment (make s)).children c c' := by
    refine gives_named <| gives_orElse ?property ?key
    case property =>
      intro c make c' hm s
      obtain ⟨_, _, hdot, hm⟩ := matched_bind.1 hm
      obtain ⟨_, _, hskip, hm⟩ := matched_bind.1 hm
      obtain ⟨x, _, hname, hm⟩ := matched_bind.1 hm
      cases hm
      exact ⟨rfl, (Along.append (moves_literal "." _ _ _ hdot) (moves_skip _ _ _ hskip)).append
        (moves_name _ _ _ hname)⟩
    case key =>
      intro c make c' hm s
      obtain ⟨_, _, hopen, hm⟩ := matched_bind.1 hm
      obtain ⟨_, _, hskip, hm⟩ := matched_bind.1 hm
      obtain ⟨e, _, hkey, hm⟩ := matched_bind.1 hm
      obtain ⟨_, _, hskip', hm⟩ := matched_bind.1 hm
      obtain ⟨_, _, hclose, hm⟩ := matched_bind.1 hm
      cases hm
      have hbefore := (Along.append (moves_literal "[" _ _ _ hopen) (moves_skip _ _ _ hskip)).append (he _ _ _ hkey)
      exact ⟨rfl, (hbefore.append (moves_skip _ _ _ hskip')).append (moves_literal "]" _ _ _ hclose)⟩
  intro c seg c' hm
  obtain ⟨make, rfl, hmake⟩ := gives_spanned hmake c seg c' hm
  have hrow := (hmake (c.place.spanTo c'.place)).2
  exact .single ⟨hrow.reaches, (hmake _).1, hrow, nofun⟩

include he in
theorem rows_assignment : (assignment bound expression).Rows fun s => [.stmt s] := by
  have hnot : (notHere (literal "=")).Moves := by
    intro c a c' hm
    unfold notHere at hm
    split at hm
    · cases hm
    · cases hm
      exact .nil (.refl _)
  exact Rows.spanned (fun _ => .named <| .of_continues <| .move moves_name fun _ => .move moves_skip fun _ =>
      .read ((rows_segment he).repeated bound) fun _ => .move moves_skip fun _ => .move (moves_literal "=") fun _ =>
        .move moves_skip fun _ => .move hnot fun _ => .move moves_skip fun _ => .read he fun _ =>
          .move moves_skip fun _ => .move moves_terminator fun _ =>
            .pure (by simp [Node.children, List.map_eq_flatMap]))
    (fun _ _ => rfl) nofun

include he in
theorem rows_expressionStatement : (expressionStatement expression).Rows fun s => [.stmt s] :=
  Rows.spanned (fun _ => .named <| .of_continues <| .read he fun _ => .move moves_skip fun _ =>
      .move moves_terminator fun _ => .pure rfl)
    (fun _ _ => rfl) nofun

include he hs in
theorem rows_statementOver : (statementOver bound expression statement).Rows fun s => [.stmt s] := by
  refine .named <| gives_firstOf ?_
  simp only [List.forall_mem_cons]
  exact ⟨rows_block bound hs, rows_declaration he, rows_conditional he hs, rows_loop he hs, rows_returning he,
    rows_wordStatement (fun _ => rfl) (fun _ => rfl) "break",
    rows_wordStatement (fun _ => rfl) (fun _ => rfl) "continue",
    rows_attempt bound hs, rows_assignment bound he, rows_expressionStatement he, nofun⟩

end Statements

theorem rows_statement (n : Nat) : (statement n).Rows fun s => [.stmt s] := by
  induction n with
  | zero => exact nofun
  | succ n ih => exact rows_statementOver _ (rows_expression _) ih

theorem rows_program (bound : Nat) : (program bound).Rows fun s => [.stmt s] := by
  have hending : ending.Moves := by
    refine gives_named ?_
    intro c a c' hm
    simp only at hm
    split at hm
    · cases hm
      exact .nil (.refl _)
    · cases hm
  exact Rows.spanned (fun _ => .named <| .of_continues <| .move moves_skip fun _ =>
      .read ((rows_statement bound).repeated bound) fun _ => .move moves_skip fun _ => .move hending fun _ =>
        .pure List.map_eq_flatMap)
    (fun _ _ => rfl) nofun

theorem parse_matched {text : String} {s : Stmt} (h : parse text = .ok s) :
    ∃ c', (program (text.toList.length + 1) (Cursor.ofText text)).matched = some (s, c') := by
  unfold parse at h
  rcases hp : program (text.toList.length + 1) (Cursor.ofText text) with ⟨_ | ⟨s', c'⟩, k⟩
  · rw [hp] at h
    cases h
  · rw [hp] at h
    cases h
    exact ⟨c', rfl⟩

end VirtualComputer.Grammar

/-! ## Positions in a text -/

namespace VirtualComputer

open Grammar

/-- The range of a part of a text between two of its characters, with the number of line breaks before the part and of
the characters since the last of them. -/
def Span.In (s : Span) (text : String) : Prop :=
  ∃ before inside after : String, text = before ++ inside ++ after ∧
    s = ⟨before.utf8ByteSize, (before ++ inside).utf8ByteSize, before.toList.count '\n',
      (before.toList.rtakeWhile (· ≠ '\n')).length⟩

namespace Node

/-- All nodes that a node is made of, every callee among them. -/
def parts : Node → List Node
  | .expr (.call f es _) => .expr f :: es.map .expr
  | n => n.children

/-- A node of the tree below another one, or that one. -/
abbrev Below : Node → Node → Prop :=
  Relation.ReflTransGen fun n m => m ∈ n.parts

variable {n m : Node} {c c' : Cursor}

theorem mem_parts (hm : m ∈ n.parts) :
    m ∈ n.children ∨ ∃ f es s, n = .expr (.call f es s) ∧ f.span = s ∧ m = .expr f := by
  unfold parts at hm
  split at hm
  · next f es s =>
    by_cases hs : f.span = s
    · obtain rfl | hm := List.mem_cons.1 hm
      · exact .inr ⟨f, es, s, rfl, hs, rfl⟩
      · exact .inl (by simpa [children, hs] using hm)
    · exact .inl (by simpa [children, hs] using hm)
  · exact .inl hm

/-- The parts of a node are set within its range. -/
theorem Set.part (hn : n.Set c c') (hm : m ∈ n.parts) : ∃ a b, c.Reaches a ∧ m.Set a b ∧ b.Reaches c' := by
  obtain ⟨hc, hspan, hchildren, hregular⟩ := hn
  obtain hm | ⟨f, es, s, rfl, hs, rfl⟩ := mem_parts hm
  · exact Row.mem hchildren hm
  · obtain ⟨x, -, rfl⟩ := hregular f es s rfl hs
    exact ⟨c, c', .refl c, ⟨hc, hspan, .nil hc, nofun⟩, .refl c'⟩

theorem Set.of_below (hn : n.Set c c') (hm : Below n m) : ∃ a b, c.Reaches a ∧ m.Set a b ∧ b.Reaches c' := by
  induction hm with
  | refl => exact ⟨c, c', .refl c, hn, .refl c'⟩
  | tail _ hpart ih =>
    obtain ⟨a, b, ha, hset, hb⟩ := ih
    obtain ⟨a', b', ha', hset', hb'⟩ := hset.part hpart
    exact ⟨a', b', ha.trans ha', hset', hb'.trans hb⟩

/-- The range of a node that is set between two cursors of a text. -/
theorem Set.span_in {text : String} (hc : (Cursor.ofText text).Reaches c) (hn : n.Set c c') : n.span.In text := by
  obtain ⟨before, hrest, hplace⟩ := hc
  obtain ⟨⟨inside, hrest', hplace'⟩, hspan, -, -⟩ := hn
  refine ⟨String.ofList before, String.ofList inside, String.ofList c'.rest, ?_, ?_⟩
  · rw [← String.ofList_append, ← String.ofList_append, List.append_assoc, ← hrest', ← hrest]
    exact String.ofList_toList.symm
  · have hstop : c'.place = Place.origin.advanceAll (before ++ inside) := by
      rw [hplace', hplace]
      exact List.foldl_append.symm
    have hstart : c.place = Place.origin.advanceAll before := hplace
    rw [hspan, hstart, hstop, Cursor.origin_advanceAll, Cursor.origin_advanceAll, ← String.ofList_append,
      String.toList_ofList]
    rfl

/-- Every node of the tree of a text is set between two cursors of the text. -/
theorem set_of_below {text : String} {program : Stmt} (h : parse text = .ok program) (hn : Below (.stmt program) n) :
    ∃ a b, (Cursor.ofText text).Reaches a ∧ n.Set a b := by
  obtain ⟨c', hmatched⟩ := parse_matched h
  obtain ⟨a, b, ha, hset, -⟩ := Row.single_iff.1 (rows_program _ _ _ _ hmatched)
  obtain ⟨a', b', ha', hn, -⟩ := hset.of_below hn
  exact ⟨a', b', ha.trans ha', hn⟩

end Node

/-- In the tree of a text every node has the range, the line and the column of a part of the text.  The nodes that it is
made of lie within it, its children one after another, and the one node that may lie across them is the name of an
operator. -/
theorem parse_positions {text : String} {program : Stmt} (h : parse text = .ok program) {n : Node}
    (hn : Node.Below (.stmt program) n) :
    n.span.In text ∧ (∀ m ∈ n.parts, n.span.start ≤ m.span.start ∧ m.span.stop ≤ n.span.stop) ∧
      (n.children.Pairwise fun a b => a.span.stop ≤ b.span.start) ∧ n.Regular := by
  obtain ⟨a, b, ha, hn⟩ := Node.set_of_below h hn
  refine ⟨hn.span_in ha, fun m hm => ?_, ?_, ?_⟩
  · obtain ⟨c₁, c₂, hc₁, ⟨-, hspan', -, -⟩, hc₂⟩ := hn.part hm
    obtain ⟨-, hspan, -, -⟩ := hn
    rw [hspan, hspan']
    exact ⟨hc₁.offset_le, hc₂.offset_le⟩
  · obtain ⟨-, -, hchildren, -⟩ := hn
    exact Row.pairwise hchildren
  · obtain ⟨-, -, -, hregular⟩ := hn
    exact hregular

/-- The second operand of a sum stands on the second line, behind a character of two bytes on the first. -/
theorem parse_positions_operand : ∃ program n, parse "'é' \n+ f(x)" = .ok program ∧ Node.Below (.stmt program) n ∧
    n.span = ⟨8, 12, 1, 2⟩ ∧ n.span.In "'é' \n+ f(x)" ∧ ∀ m ∈ n.parts, 8 ≤ m.span.start ∧ m.span.stop ≤ 12 := by
  have hoperand : ((parse "'é' \n+ f(x)").toOption.bind fun p =>
      (((Node.stmt p).parts.flatMap Node.parts).flatMap Node.parts).getLast?.map Node.span) = some ⟨8, 12, 1, 2⟩ := by
    decide +kernel
  obtain ⟨program, hprogram, hlast⟩ := Option.bind_eq_some_iff.1 hoperand
  obtain ⟨n, hlast, hspan⟩ := Option.map_eq_some_iff.1 hlast
  obtain ⟨sum, hsum, hn⟩ := List.mem_flatMap.1 (List.mem_of_getLast? hlast)
  obtain ⟨s, hs, hsum⟩ := List.mem_flatMap.1 hsum
  have hparse : parse "'é' \n+ f(x)" = .ok program := by
    cases hp : parse "'é' \n+ f(x)" with
    | error e => simp [hp, Except.toOption] at hprogram
    | ok p => simpa [hp, Except.toOption] using hprogram
  have hbelow : Node.Below (.stmt program) n := ((Relation.ReflTransGen.single hs).tail hsum).tail hn
  obtain ⟨hin, hparts, -, -⟩ := parse_positions hparse hbelow
  exact ⟨program, n, hparse, hbelow, hspan, hin, by simpa [hspan] using hparts⟩

end VirtualComputer
