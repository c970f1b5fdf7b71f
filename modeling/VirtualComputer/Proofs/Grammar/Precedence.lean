import VirtualComputer.Grammar.Statement
import VirtualComputer.Proofs.Grammar.Operands

/-!
# The precedence of operators

Chains of operators take the terms of their level (`takes_chain`), unary operators those of theirs (`takes_unary`), and
expressions take every term (`takes_expression`).  A program that returns a term, written with parentheses only where
its operators need them, is therefore parsed to the tree of the term (`parse_rendered`).
-/

namespace VirtualComputer

open Grammar Matcher

namespace Grammar

/-! ## Operators -/

theorem refuses_operator {α : Type} {table : List (String × α)} {cs : List Char}
    (htable : ∀ p ∈ table, p.1.toList ≠ [])
    (h : ∀ c ∈ cs.head?, ∀ p ∈ table, p.1.toList.head? ≠ some c) : (operator table).Refuses cs := by
  refine refuses_firstOf fun p hp => ?_
  obtain ⟨⟨text, a⟩, hmem, rfl⟩ := List.mem_map.1 hp
  obtain ⟨w, ws, hw⟩ := List.exists_cons_of_ne_nil (htable _ hmem)
  refine (Refuses.bind (refuses_literal hw fun hc => ?_)).named
  exact h w hc _ hmem (by rw [hw]; rfl)

/-- The operators of a level. -/
def tableAt (n : Nat) : List (String × Operator) :=
  levels.getD (n - 1) []

theorem tableAt_ne_nil (n : Nat) : ∀ p ∈ tableAt n, p.1.toList ≠ [] := by
  have hall : ∀ table ∈ levels, ∀ p ∈ table, p.1.toList ≠ [] := by decide
  intro p hp
  rw [tableAt, List.getD_eq_getElem?_getD] at hp
  cases ht : levels[n - 1]? with
  | none =>
    rw [ht] at hp
    cases hp
  | some table =>
    rw [ht] at hp
    exact hall table (List.mem_of_getElem? ht) p hp

/-- What the grammar has for an operator. -/
def operatorOf : BinaryOp → Operator
  | .or => .logic .or
  | .and => .logic .and
  | .eq => .builtin "eq"
  | .ne => .builtin "ne"
  | .lte => .builtin "lte"
  | .gte => .builtin "gte"
  | .lt => .builtin "lt"
  | .gt => .builtin "gt"
  | .add => .builtin "add"
  | .sub => .builtin "sub"
  | .mul => .builtin "mul"
  | .div => .builtin "div"
  | .mod => .builtin "mod"

/-- An operator is the first of its level that is written like it. -/
theorem reads_operator (op : BinaryOp) (cs : List Char) :
    (operator (tableAt op.level)).Reads (op.text ++ ' ' :: cs) (' ' :: cs) (· = operatorOf op) := by
  -- The blank behind the operator keeps `<` and `>` from being read as the beginning of a longer one.
  intro place
  cases op <;> exact ⟨_, _, rfl, rfl, rfl⟩

theorem means_binary (op : BinaryOp) {left right : Term} {l r : Expr} (hl : Means left l) (hr : Means right r) :
    Means (.binary op left right) ((operatorOf op).apply l r) := by
  have hbuiltin (x : String) (s : Span) : (Expr.builtin x [l, r] s).bare =
      Expr.builtin x [left.tree, right.tree] .none := by
    rw [← hl, ← hr]
    rfl
  have hlogic (c : Connective) (s : Span) : (Expr.logic c l r s).bare = .logic c left.tree right.tree .none := by
    rw [← hl, ← hr]
    rfl
  cases op with
  | or | and => exact hlogic _ _
  | _ => exact hbuiltin _ _

/-- The operators of a level are not those of looser ones. -/
theorem refuses_looser {n : Nat} (hn : n ≤ 6) {rest : List Char} (h : Follows n rest) :
    (operator (tableAt n)).Refuses (skipped rest) := by
  refine refuses_operator (tableAt_ne_nil n) fun c hc => ?_
  have hn : n < 7 := Nat.lt_succ_of_le hn
  obtain hend | ⟨op, hlevel, hop⟩ := h.head c hc
  · have hall : ∀ n < 7, ∀ p ∈ tableAt n, closers.all fun c => p.1.toList.head? ≠ some c := by decide
    exact fun p hp => List.all_iff_forall_prop.1 (hall n hn p hp) c hend
  · have hall : ∀ n < 7, op.level < n → ∀ p ∈ tableAt n, p.1.toList.head? ≠ op.text.head? := by
      cases op <;> decide
    rw [← hop]
    exact hall n hn hlevel

/-- An operator with its right operand, as they are written in a chain of some level. -/
def operationText (n : Nat) (p : BinaryOp × Term) : List Char :=
  ' ' :: (p.1.text ++ ' ' :: Term.textAt (n + 1) p.2)

/-- A term is a first operand and operations of some level. -/
def HasChain (n : Nat) (t : Term) : Prop :=
  ∃ (first : Term) (others : List (BinaryOp × Term)), t = others.foldl (fun l p => .binary p.1 l p.2) first ∧
    (∀ p ∈ others, p.1.level = n) ∧ Term.textAt n t = Term.textAt (n + 1) first ++ others.flatMap (operationText n)

theorem hasChain_of_rank {n : Nat} {t : Term} (h : t.rank ≠ n) : HasChain n t :=
  ⟨t, [], rfl, nofun, by rw [Term.textAt_succ h, List.flatMap_nil, List.append_nil]⟩

theorem HasChain.binary {n : Nat} {l : Term} (h : HasChain n l) {op : BinaryOp} (hop : op.level = n) (r : Term) :
    HasChain n (.binary op l r) := by
  obtain ⟨first, others, rfl, hlevels, htext⟩ := h
  refine ⟨first, others ++ [(op, r)], ?_, ?_, ?_⟩
  · rw [List.foldl_append]
    rfl
  · exact List.forall_mem_append.2 ⟨hlevels, List.forall_mem_singleton.2 hop⟩
  · rw [List.flatMap_append, List.flatMap_singleton, ← List.append_assoc, ← htext]
    subst hop
    exact Term.textAt_of_le (Nat.le_refl op.level)

theorem hasChain {n : Nat} (hn : n ≤ 6) (hpos : 0 < n) : ∀ t : Term, HasChain n t
  | .binary op l r => by
    by_cases hop : op.level = n
    · exact (hasChain hn hpos l).binary hop r
    · exact hasChain_of_rank hop
  | .number _ | .string .. | .bool _ | .null | .name _ | .list _ | .object _ =>
    hasChain_of_rank (Nat.ne_of_gt (Nat.lt_of_le_of_lt hn (by decide : 6 < 9)))
  | .member .. | .index .. | .call .. =>
    hasChain_of_rank (Nat.ne_of_gt (Nat.lt_of_le_of_lt hn (by decide : 6 < 8)))
  | .unary .. => hasChain_of_rank (Nat.ne_of_gt (Nat.lt_of_le_of_lt hn (by decide : 6 < 7)))
  | .yield _ => hasChain_of_rank (Nat.ne_of_lt hpos)

section Levels

variable {bound : Nat} {operand : Matcher Expr}

/-- If a matcher takes the terms of the next level, a chain over it takes those of a level. -/
theorem takes_chain {n : Nat} (hn : n ≤ 6) (hpos : 0 < n) (ho : TakesAt bound (n + 1) operand) :
    TakesAt bound n (chain bound (tableAt n) operand) := by
  intro t rest hlength hrest
  obtain ⟨first, others, rfl, hlevels, htext⟩ := hasChain hn hpos t
  rw [htext, List.length_append] at hlength
  have hitem : ∀ p ∈ others, ∀ k, Follows (n + 1) k →
      Matcher.Takes (do
        let op ← operator (tableAt n)
        skip
        let right ← operand
        pure (op, right)) (skipped (operationText n p ++ k)) k
        fun q => ∀ t e, Means t e → Means (.binary p.1 t p.2) (q.1.apply e q.2) := by
    rintro ⟨op, right⟩ hp k hk
    obtain rfl : op.level = n := hlevels _ hp
    have hle := length_le_flatMap_of_mem (f := operationText op.level) hp
    simp only [operationText, List.length_cons, List.length_append] at hle
    rw [operationText, List.cons_append, List.append_assoc, List.cons_append, skipped_space, skipped_operator]
    refine Reads.bind (reads_operator op _) ?_
    rintro _ rfl
    refine answers_skip_bind ?_
    rw [skipped_space, (Term.begins _ right k).skipped]
    refine Answers.bind (ho right k (by omega) hk) ?_
    rintro r _ ⟨hr, hright⟩
    exact answers_pure ⟨hr, fun t e he => means_binary op he hright⟩
  have hnext : ∀ p ∈ others, ∀ k, Follows (n + 1) k → Follows (n + 1) (operationText n p ++ k) := by
    intro p hp k _
    refine .inr ⟨p.1, Term.textAt (n + 1) p.2 ++ k, ?_, ?_⟩
    · rw [hlevels p hp]
      exact Nat.lt_succ_self n
    · rw [operationText, List.cons_append, List.append_assoc, List.cons_append]
  have hstop : Matcher.Refuses (do
      let op ← operator (tableAt n)
      skip
      let right ← operand
      pure (op, right)) (skipped rest) := Refuses.bind (refuses_looser hn hrest)
  -- An operand ends where the next operator of the level stands as well as where the chain ends.
  have hrest : Follows (n + 1) rest := hrest.mono (Nat.le_succ n)
  have hcount : others.length ≤ bound := by
    have hle := length_le_flatMap (f := operationText n) fun p (_ : p ∈ others) => List.cons_ne_nil _ _
    omega
  rw [htext, List.append_assoc]
  refine Answers.named <| Takes.bind_skip (ho first _ (by omega) (items_followed hnext hrest)) fun e he => ?_
  refine Answers.bind (takes_repeated hitem hnext hrest hstop hcount) ?_
  rintro qs r ⟨hr, hqs⟩
  exact answers_pure ⟨hr, means_foldl hqs he⟩

/-- The six levels over what takes the terms without binary operators. -/
theorem takes_levels (ho : TakesAt bound 7 operand) : TakesAt bound 1 (levels.foldr (chain bound) operand) := by
  have hlevels : levels = [tableAt 1, tableAt 2, tableAt 3, tableAt 4, tableAt 5, tableAt 6] := rfl
  have hproduct := takes_chain (n := 6) (by decide) (by decide) ho
  have hsum := takes_chain (n := 5) (by decide) (by decide) hproduct
  have hcomparison := takes_chain (n := 4) (by decide) (by decide) hsum
  have hequality := takes_chain (n := 3) (by decide) (by decide) hcomparison
  have hand := takes_chain (n := 2) (by decide) (by decide) hequality
  rw [hlevels]
  simp only [List.foldr_cons, List.foldr_nil]
  exact takes_chain (n := 1) (by decide) (by decide) hand

theorem reads_unaryOperator (op : UnaryOp) (cs : List Char) :
    (operator unaryOperators).Reads (op.char :: cs) cs (· = op.builtin) := by
  intro place
  cases op <;> exact ⟨_, _, rfl, rfl, rfl⟩

theorem refuses_unaryOperator {cs : List Char} (h : ∀ op : UnaryOp, op.char ∉ cs.head?) :
    (operator unaryOperators).Refuses cs := by
  refine refuses_operator (by decide) fun c hc p hp hpc => ?_
  have hall : ∀ p ∈ unaryOperators, p.1.toList.head? = some UnaryOp.not.char ∨
      p.1.toList.head? = some UnaryOp.neg.char := by decide
  rcases hall p hp with hop | hop
  · exact h .not ((Option.mem_def.1 hc).trans (hpc.symm.trans hop))
  · exact h .neg ((Option.mem_def.1 hc).trans (hpc.symm.trans hop))

/-- Unary operators are taken from the outside in, at most as many as their text is long. -/
theorem takes_unary (ho : TakesAt bound 8 operand) {n : Nat} (hn : n ≤ bound) : TakesAt n 7 (unary operand n) := by
  intro t rest hlength hrest
  induction n generalizing t with
  | zero => exact absurd (List.length_eq_zero_iff.1 (Nat.le_zero.1 hlength)) ((Term.begins_text t).at 7).ne_nil
  | succ n ih =>
    by_cases hrank : t.rank = 7
    · cases t with
      | unary op t =>
        have htext : Term.textAt 7 (.unary op t) = op.char :: Term.textAt 7 t := rfl
        rw [htext, List.length_cons] at hlength
        rw [htext, List.cons_append]
        refine Answers.named <| Answers.orElse <| Answers.spanned
          (Q := fun p r => skipped r = skipped rest ∧ p.1 = op.builtin ∧ Means t p.2) ?_ ?_
        · refine Reads.bind (reads_unaryOperator op _) ?_
          rintro _ rfl
          refine answers_skip_bind ?_
          rw [(Term.begins 7 t rest).skipped]
          refine Answers.bind (ih (by omega) t (by omega)) ?_
          rintro e r ⟨hr, he⟩
          exact answers_pure ⟨hr, rfl, he⟩
        · rintro ⟨x, e⟩ s r ⟨hr, rfl, he⟩
          exact ⟨hr, congrArg (fun e => Expr.builtin op.builtin [e] .none) he⟩
      | binary op => exact absurd hrank (Nat.ne_of_lt (Nat.lt_succ_of_le op.level_le))
      | _ => cases hrank
    · rw [Term.textAt_succ hrank] at hlength ⊢
      have hoperator : (operator unaryOperators).Refuses (Term.textAt 8 t ++ rest) :=
        refuses_unaryOperator ((Term.begins 8 t rest).not_unary (by decide))
      exact Answers.named <| Refuses.orElse (Refuses.bind hoperator).spanned <|
        ho t rest (Nat.le_trans hlength hn) (hrest.mono (by decide))

end Levels

/-! ## Expressions -/

/-- Nothing that closes what an expression stands in begins one. -/
theorem expression_refuses {n : Nat} {rest : List Char} (h : Closed rest) : (expression n).Refuses rest := by
  cases n with
  | zero => exact fun _ => rfl
  | succ n =>
    have hne (c : Char) (hc : c ∉ closers) : c ∉ rest.head? := fun hmem => hc (h c hmem)
    have hdigit : ∀ c ∈ rest.head?, c.isDigit = false := h.breaks.digit
    have hyield : splitKeyword "yield" rest = none := splitKeyword_none List.all_nil h.word (by decide)
    have hliteral : (literalExpr (n + 1) (expression n)).Refuses rest :=
      refuses_literalExpr hdigit (hne _ (by decide)) (hne _ (by decide)) (literalWords_none h.word) (hne _ (by decide))
        (hne _ (by decide))
    have hparenthesis : (literal "(").Refuses rest := refuses_literal rfl (hne _ (by decide))
    have hprimary : (primary (n + 1) (expression n)).Refuses rest :=
      Refuses.named <| refuses_orElse hliteral <| refuses_orElse (refuses_name h.word).spanned <|
        refuses_orElse (Refuses.bind hparenthesis) fun _ => rfl
    have hoperator : (operator unaryOperators).Refuses rest :=
      refuses_unaryOperator fun op => hne _ (by cases op <;> decide)
    have hunary : (unary (suffixed (n + 1) (expression n)) (n + 1)).Refuses rest :=
      Refuses.named <| refuses_orElse (Refuses.bind hoperator).spanned (Refuses.bind hprimary).named
    refine Refuses.named <| refuses_orElse (Refuses.bind (refuses_keyword hyield)).named.spanned ?_
    exact List.foldrRecOn (motive := fun p => p.Refuses rest) levels (chain (n + 1)) hunary
      fun _ hp _ _ => (Refuses.bind hp).named

/-- The keyword and what may follow it. -/
theorem takes_yield {expression : Matcher Expr} {cs rest : List Char} {Q : Option Expr → Prop}
    (hword : ∀ c ∈ cs.head?, isWordChar c = false) (ho : (optional expression).Takes (skipped cs) rest Q) :
    (spanned (named do
      keyword "yield"
      skip
      optional expression) Expr.yield).Takes (['y', 'i', 'e', 'l', 'd'] ++ cs) rest fun e =>
        ∃ operand s, e = .yield operand s ∧ Q operand := by
  refine Answers.spanned (Answers.named (Q := fun o r => skipped r = skipped rest ∧ Q o) ?_)
    fun o s r ⟨hr, h⟩ => ⟨hr, o, s, rfl, h⟩
  exact Reads.bind (reads_keyword (by decide) hword) fun _ _ => answers_skip_bind ho

/-- Every term is read as its tree, by expressions that may be nested as deeply as the text is long. -/
theorem takes_expression {n : Nat} (t : Term) (rest : List Char) (hlength : t.text.length ≤ n) (hrest : Closed rest) :
    (expression n).Takes (t.text ++ rest) rest (Means t) := by
  -- On the depth: what stands in brackets or behind `yield` is shorter than the term, however its operators nest.
  induction n generalizing t rest with
  | zero => exact absurd (List.length_eq_zero_iff.1 (Nat.le_zero.1 hlength)) (Term.begins_text t).ne_nil
  | succ n ih =>
    have hnested : TakesShorter (n + 1) (expression n) :=
      ⟨fun t rest hlt => ih t rest (Nat.le_of_lt_succ hlt), fun _ => expression_refuses⟩
    have hunary : TakesAt (n + 1) 7 (unary (suffixed (n + 1) (expression n)) (n + 1)) :=
      takes_unary (takes_suffixed hnested) (Nat.le_refl (n + 1))
    by_cases hrank : 0 < t.rank
    · have hyield := Term.not_yield t hrank rest hrest.word
      rw [← Term.textAt_of_le hrank] at hlength hyield ⊢
      exact Answers.named <| Refuses.orElse (Refuses.bind (refuses_keyword hyield)).named.spanned <|
        takes_levels hunary t rest hlength (.inl hrest)
    · cases t with
      | yield operand =>
        refine Answers.named <| Answers.orElse ?_
        cases operand with
        | none =>
          have hnone : (optional (expression n)).Takes (skipped rest) rest (· = none) := by
            rw [hrest.skipped]
            exact (Refuses.optional (expression_refuses hrest)).takes
          refine (takes_yield hrest.word hnone).mono ?_
          rintro e r ⟨hr, _, s, rfl, rfl⟩
          exact ⟨hr, rfl⟩
        | some u =>
          have hsome : (optional (expression n)).Takes (skipped (' ' :: (u.text ++ rest))) rest
              fun o => ∃ e, o = some e ∧ Means u e := by
            have htext : (Term.yield (some u)).text.length = 6 + u.text.length := List.length_append
            rw [skipped_space, ((Term.begins_text u).append rest).skipped]
            refine (Answers.optional (ih u rest (by omega) hrest)).mono ?_
            rintro o r ⟨e, rfl, hr, he⟩
            exact ⟨hr, e, rfl, he⟩
          refine (takes_yield (by rintro c ⟨⟩; rfl) hsome).mono ?_
          rintro e r ⟨hr, _, s, rfl, e, rfl, he⟩
          exact ⟨hr, congrArg (fun e => Expr.yield (some e) .none) he⟩
      | binary op => exact absurd op.level_pos hrank
      | _ => exact absurd (Nat.succ_pos _) hrank

/-! ## A statement that returns a term -/

theorem statement_refuses (n : Nat) : (statement n).Refuses [] := by
  cases n with
  | zero => exact fun _ => rfl
  | succ n =>
    have hclosed : Closed [] := nofun
    have hword (w : String) (h : [] ≠ w.toList) : (keyword w).Refuses [] :=
      refuses_keyword (splitKeyword_none List.all_nil hclosed.word h)
    have hexpression := expression_refuses (n := n + 1) hclosed
    refine Refuses.named <| refuses_firstOf ?_
    simp only [List.forall_mem_cons]
    refine ⟨?block, ?declaration, ?conditional, ?loop, ?returning, ?leaving, ?repeating, ?attempt,
      ?assignment, ?expression, nofun⟩
    case block => exact (Refuses.bind (refuses_literal rfl (by rintro ⟨⟩))).named.spanned
    case declaration => exact (Refuses.bind (hword "let" (by decide))).named.spanned
    case conditional => exact (Refuses.bind (hword "if" (by decide))).named.spanned
    case loop => exact (Refuses.bind (hword "while" (by decide))).named.spanned
    case returning => exact (Refuses.bind (hword "return" (by decide))).named.spanned
    case leaving => exact (Refuses.bind (hword "break" (by decide))).named.spanned
    case repeating => exact (Refuses.bind (hword "continue" (by decide))).named.spanned
    case attempt => exact (Refuses.bind (hword "try" (by decide))).named.spanned
    case assignment => exact (Refuses.bind (refuses_name hclosed.word)).named.spanned
    case expression => exact (Refuses.bind hexpression).named.spanned

/-- The text of a statement that returns a term. -/
def returnText (t : Term) : List Char :=
  ['r', 'e', 't', 'u', 'r', 'n'] ++ ' ' :: (t.text ++ [';'])

theorem reads_return (t : Term) {n : Nat} (hlength : t.text.length ≤ n + 1) (rest : List Char) :
    (statement (n + 1)).Reads (returnText t ++ rest) rest fun s => s.bare = .return (some t.tree) .none := by
  have htext : returnText t ++ rest = ['r', 'e', 't', 'u', 'r', 'n'] ++ ' ' :: (t.text ++ ';' :: rest) := by
    simp only [returnText, List.append_assoc, List.cons_append, List.nil_append]
  have hend : Closed (';' :: rest) := closed_cons (by decide) rest
  have hhead : ∀ c ∈ (returnText t ++ rest).head?, c = 'r' := by rintro c ⟨⟩; rfl
  have hword {w : String} {c : Char} {cs : List Char} (hw : w.toList = c :: cs) (hc : c ≠ 'r') :
      (keyword w).Refuses (returnText t ++ rest) :=
    refuses_keyword (splitKeyword_head hw fun h => hc (hhead c h))
  refine Answers.named <| Refuses.orElse ?block <| Refuses.orElse ?declaration <| Refuses.orElse ?conditional <|
    Refuses.orElse ?loop <| Answers.orElse <| Answers.spanned
      (Q := fun o r => r = rest ∧ ∃ e, o = some e ∧ Means t e) (Answers.named ?value) ?_
  case block =>
    exact (Refuses.bind (refuses_literal rfl fun h => absurd (hhead _ h) (by decide))).named.spanned
  case declaration => exact (Refuses.bind (hword (w := "let") rfl (by decide))).named.spanned
  case conditional => exact (Refuses.bind (hword (w := "if") rfl (by decide))).named.spanned
  case loop => exact (Refuses.bind (hword (w := "while") rfl (by decide))).named.spanned
  case value =>
    rw [htext]
    refine Reads.bind (reads_keyword (by decide) (by rintro c ⟨⟩; rfl)) fun _ _ => answers_skip_bind ?_
    rw [skipped_space, ((Term.begins_text t).append _).skipped]
    refine Answers.bind (Answers.optional (takes_expression t _ hlength hend)) ?_
    rintro o r ⟨e, rfl, hr, he⟩
    refine answers_skip_bind ?_
    rw [hr, hend.skipped]
    have hterminator : terminator.Reads (';' :: rest) rest fun _ => True :=
      Answers.bind (Answers.optional (reads_char rfl rest)) fun _ _ ⟨_, _, hr, _⟩ => answers_pure ⟨hr, trivial⟩
    exact Reads.bind hterminator fun _ _ => answers_pure ⟨rfl, e, rfl, he⟩
  · rintro o s r ⟨hr, e, rfl, he⟩
    exact ⟨hr, congrArg (fun e => Stmt.return (some e) .none) he⟩

theorem program_rendered (t : Term) {n : Nat} (hlength : t.text.length ≤ n + 1) :
    (program (n + 1)).Reads (returnText t) [] fun s => s.bare = .block [.return (some t.tree) .none] .none := by
  have hitem : ∀ u ∈ [t], ∀ k : List Char, True → (statement (n + 1)).Takes (skipped (returnText u ++ k)) k
      fun s => s.bare = .return (some u.tree) .none := by
    intro u hu k _
    obtain rfl := List.mem_singleton.1 hu
    have hskipped : skipped (returnText u ++ k) = returnText u ++ k := rfl
    rw [hskipped]
    exact (reads_return u hlength k).takes
  have hbody : (repeated (n + 1) (statement (n + 1))).Takes (skipped ([t].flatMap returnText ++ [])) []
      (List.Forall₂ (fun u s => s.bare = .return (some u.tree) .none) [t]) :=
    takes_repeated (K := fun _ => True) hitem (fun _ _ _ h => h) trivial (statement_refuses _) (Nat.succ_pos n)
  refine Answers.spanned (Q := fun body r => r = [] ∧ body.map Stmt.bare = [.return (some t.tree) .none])
    (Answers.named ?_) ?_
  · have htext : skipped (returnText t) = skipped ([t].flatMap returnText ++ []) := by
      rw [List.flatMap_singleton, List.append_nil]
    refine answers_skip_bind ?_
    rw [htext]
    refine Answers.bind hbody ?_
    rintro body r ⟨hr, hbody⟩
    refine answers_skip_bind ?_
    rw [hr]
    have hending : ending.Reads [] [] fun _ => True := fun place => ⟨(), ⟨place, []⟩, rfl, rfl, trivial⟩
    refine Reads.bind hending fun _ _ => answers_pure ⟨rfl, ?_⟩
    obtain _ | ⟨hs, _ | _⟩ := hbody
    exact congrArg (fun s => [s]) hs
  · rintro body s r ⟨hr, hbody⟩
    refine ⟨hr, ?_⟩
    show Stmt.block (Stmt.bareAll body) .none = _
    rw [Stmt.bareAll_eq, hbody]

end Grammar

/-- A text is the program that is read from it. -/
theorem parse_of_matched {text : String} {s : Stmt} {c' : Cursor}
    (h : (program (text.toList.length + 1) (Cursor.ofText text)).matched = some (s, c')) : parse text = .ok s := by
  unfold parse
  rcases hp : program (text.toList.length + 1) (Cursor.ofText text) with ⟨_ | ⟨s', c''⟩, k⟩
  · rw [hp] at h
    cases h
  · rw [hp] at h
    cases h
    rfl

/-- Every term that is written with parentheses only where its operators need them is read as its tree. -/
theorem parse_rendered (t : Term) : (parse ("return " ++ t.render ++ ";")).map Stmt.bare =
    .ok (.block [.return (some t.tree) .none] .none) := by
  have hrender : t.render.toList = t.text := String.toList_ofList
  have htext : ("return " ++ t.render ++ ";").toList = returnText t := by
    rw [String.toList_append, String.toList_append, hrender, List.append_assoc]
    rfl
  have hlength : t.text.length ≤ (returnText t).length + 1 := by
    simp only [returnText, List.length_append, List.length_cons]
    omega
  obtain ⟨s, c', hmatched, -, hs⟩ := program_rendered t hlength .origin
  rw [← htext] at hmatched
  rw [parse_of_matched hmatched]
  exact congrArg Except.ok hs

end VirtualComputer
