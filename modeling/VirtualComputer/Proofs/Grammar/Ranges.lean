import VirtualComputer.Grammar.Statement
import VirtualComputer.Proofs.Grammar.Cursors

/-!
# Ranges in a text

Matchers move a cursor on in its text (`Matcher.Moves`).  A node of a syntax tree is set between two cursors if its
range is the text between them and its children are set one after another in that text (`Node.Set`), and a matcher whose
values stand for nodes reads them in a row (`Matcher.Rows`).  Rows are composed in the ways in which matchers are: in
sequence (`Continues.read`), in repetition (`gives_repeated`) and under a rule that makes one node of what it reads
(`Rows.spanned`).
-/

namespace VirtualComputer

/-! ## Nodes -/

/-- A node of a syntax tree. -/
inductive Node where
  | expr (e : Expr)
  | segment (s : Segment)
  | stmt (s : Stmt)

namespace Node

def span : Node → Span
  | .expr e => e.span
  | .segment s => s.span
  | .stmt s => s.span

/-- The children of a node in the order of the source.  A callee that has the range of the whole call is no child: an
operator is written between or before its operands. -/
def children : Node → List Node
  | .expr (.list es _) => es.map .expr
  | .expr (.object ps _) => ps.map fun p => .expr p.2
  | .expr (.member e _ _) => [.expr e]
  | .expr (.index e k _) => [.expr e, .expr k]
  | .expr (.call f es s) => if f.span = s then es.map .expr else .expr f :: es.map .expr
  | .expr (.yield e _) => e.toList.map .expr
  | .expr (.logic _ l r _) => [.expr l, .expr r]
  | .expr (.bool ..) | .expr (.num ..) | .expr (.str ..) | .expr (.null _) | .expr (.ident ..) => []
  | .segment (.property ..) => []
  | .segment (.key e _) => [.expr e]
  | .stmt (.block body _) => body.map .stmt
  | .stmt (.declare _ init _) => init.toList.map .expr
  | .stmt (.assign _ path value _) => path.map .segment ++ [.expr value]
  | .stmt (.branch test yes no _) => .expr test :: .stmt yes :: no.toList.map .stmt
  | .stmt (.loop test body _) => [.expr test, .stmt body]
  | .stmt (.return value _) => value.toList.map .expr
  | .stmt (.attempt body _ handler _) => [.stmt body, .stmt handler]
  | .stmt (.expr e _) => [.expr e]
  | .stmt (.break _) | .stmt (.continue _) => []

/-- The names of the natives that operators stand for. -/
def operatorNames : List String :=
  Grammar.unaryOperators.map Prod.snd ++ Grammar.levels.flatten.filterMap fun p =>
    match p.2 with
    | .builtin x => some x
    | .logic _ => none

/-- Only the name of an operator has the range of the whole call. -/
def Regular (n : Node) : Prop :=
  ∀ f es s, n = .expr (.call f es s) → f.span = s → ∃ x ∈ operatorNames, f = .ident x s

end Node

namespace Grammar

/-- Values that are set one after another between two cursors. -/
inductive Along {α : Type} (P : α → Cursor → Cursor → Prop) : List α → Cursor → Cursor → Prop
  | nil {c c' : Cursor} (h : c.Reaches c') : Along P [] c c'
  | cons {a : α} {as : List α} {c c₁ c₂ c' : Cursor} (h : c.Reaches c₁) (ha : P a c₁ c₂) (has : Along P as c₂ c') :
      Along P (a :: as) c c'

end Grammar

open Grammar (Cursor Matcher Along)

/-- The range of a node is the text between two cursors, in which its children are set one after another. -/
inductive Node.Set : Node → Cursor → Cursor → Prop
  | mk {n : Node} {c c' : Cursor} (hc : c.Reaches c') (hspan : n.span = c.place.spanTo c'.place)
      (hchildren : Along Node.Set n.children c c') (hregular : n.Regular) : Node.Set n c c'

namespace Grammar

/-- Nodes one after another between two cursors. -/
abbrev Row : List Node → Cursor → Cursor → Prop := Along Node.Set

namespace Along

variable {α : Type} {P : α → Cursor → Cursor → Prop} {a : α} {as bs : List α} {c c' c₁ : Cursor}

theorem append (h : Along P as c c') (h' : Along P bs c' c₁) : Along P (as ++ bs) c c₁ := by
  induction h with
  | nil h =>
    cases h' with
    | nil h' => exact .nil (h.trans h')
    | cons h' hb hbs => exact .cons (h.trans h') hb hbs
  | cons h ha _ ih => exact .cons h ha (ih h')

theorem behind (h : Along P as c c') (hc : c₁.Reaches c) : Along P as c₁ c' := by
  cases h with
  | nil h => exact .nil (hc.trans h)
  | cons h ha has => exact .cons (hc.trans h) ha has

theorem single (ha : P a c c') : Along P [a] c c' := .cons (.refl c) ha (.nil (.refl c'))

end Along

/-- What steps over values make of the first expression, if every step leads on over its value. -/
theorem Along.foldl_row {α : Type} {P : α → Cursor → Cursor → Prop} {step : Expr → α → Expr}
    (hstep : ∀ e a start c c', Row [.expr e] start c → P a c c' → Row [.expr (step e a)] start c') {as : List α}
    {c c' : Cursor} (h : Along P as c c') {start : Cursor} {e : Expr} (he : Row [.expr e] start c) :
    Row [.expr (as.foldl step e)] start c' := by
  induction h generalizing e with
  | nil h => exact he.append (.nil h)
  | cons h ha _ ih => exact ih (hstep _ _ _ _ _ (he.append (.nil h)) ha)

theorem Row.single_iff {n : Node} {c c' : Cursor} :
    Row [n] c c' ↔ ∃ a b, c.Reaches a ∧ n.Set a b ∧ b.Reaches c' := by
  constructor
  · rintro (_ | ⟨ha, hn, hb | _⟩)
    exact ⟨_, _, ha, hn, hb⟩
  · rintro ⟨a, b, ha, hn, hb⟩
    exact .cons ha hn (.nil hb)

theorem Row.reaches {ns : List Node} {c c' : Cursor} (h : Row ns c c') : c.Reaches c' := by
  induction h with
  | nil h => exact h
  | cons h hn _ ih =>
    obtain ⟨hc, -, -, -⟩ := hn
    exact h.trans (hc.trans ih)

theorem Row.mem {ns : List Node} {n : Node} {c c' : Cursor} (h : Row ns c c') (hn : n ∈ ns) :
    ∃ a b, c.Reaches a ∧ n.Set a b ∧ b.Reaches c' := by
  induction h with
  | nil => cases hn
  | cons h hm hns ih =>
    obtain rfl | hn := List.mem_cons.1 hn
    · exact ⟨_, _, h, hm, Row.reaches hns⟩
    · obtain ⟨a, b, ha, hset, hb⟩ := ih hn
      exact ⟨a, b, h.trans ((Row.reaches (.single hm)).trans ha), hset, hb⟩

/-- Nodes in a row do not overlap. -/
theorem Row.pairwise {ns : List Node} {c c' : Cursor} (h : Row ns c c') :
    ns.Pairwise fun n m => n.span.stop ≤ m.span.start := by
  induction h with
  | nil => exact .nil
  | cons h hn hns ih =>
    refine .cons (fun m hm => ?_) ih
    obtain ⟨-, hspan, -, -⟩ := hn
    obtain ⟨a, b, ha, ⟨-, hspan', -, -⟩, -⟩ := Row.mem hns hm
    rw [hspan, hspan']
    exact ha.offset_le

/-! ## Matchers -/

namespace Matcher

variable {α β : Type} {p q : Matcher α} {f : α → Matcher β} {P : α → Cursor → Cursor → Prop}

/-- What a matcher reads between two cursors. -/
def Gives (p : Matcher α) (P : α → Cursor → Cursor → Prop) : Prop :=
  ∀ c a c', (p c).matched = some (a, c') → P a c c'

/-- A matcher whose values stand for nodes reads them in a row. -/
def Rows (p : Matcher α) (nodes : α → List Node) : Prop :=
  p.Gives fun a => Row (nodes a)

/-- A matcher that only moves on. -/
def Moves (p : Matcher α) : Prop :=
  p.Rows fun _ => []

theorem matched_bind {c c'' : Cursor} {b : β} : ((p >>= f) c).matched = some (b, c'') ↔
    ∃ a c', (p c).matched = some (a, c') ∧ (f a c').matched = some (b, c'') := by
  rw [bind_matched, Option.bind_eq_some_iff]
  exact ⟨fun ⟨⟨a, c'⟩, h⟩ => ⟨a, c', h⟩, fun ⟨a, c', h⟩ => ⟨(a, c'), h⟩⟩

theorem gives_bind {Q : β → Cursor → Cursor → Prop} {R : α → Cursor → Cursor → Prop} (hp : p.Gives R)
    (hf : ∀ a start c, R a start c → ∀ b c', (f a c).matched = some (b, c') → Q b start c') : (p >>= f).Gives Q := by
  intro c b c'' h
  obtain ⟨a, c', ha, hb⟩ := matched_bind.1 h
  exact hf a c c' (hp _ _ _ ha) b c'' hb

theorem gives_orElse (hp : p.Gives P) (hq : q.Gives P) : (p.orElse q).Gives P := by
  intro c a c' h
  rw [orElse_matched, Option.or_eq_some_iff] at h
  obtain h | ⟨-, h⟩ := h
  · exact hp _ _ _ h
  · exact hq _ _ _ h

theorem gives_firstOf {ps : List (Matcher α)} (h : ∀ p ∈ ps, p.Gives P) : (firstOf ps).Gives P := by
  induction ps with
  | nil => exact nofun
  | cons p ps ih =>
    obtain ⟨hp, h⟩ := List.forall_mem_cons.1 h
    exact gives_orElse hp (ih h)

theorem gives_named (hp : p.Gives P) : p.named.Gives P := by
  intro c a c' h
  rw [named_matched] at h
  exact hp _ _ _ h

theorem gives_spanned {g : α → Span → β} (hp : p.Gives P) :
    (p.spanned g).Gives fun b c c' => ∃ a, b = g a (c.place.spanTo c'.place) ∧ P a c c' := by
  intro c b c' h
  obtain ⟨start, c₀, hstart, h⟩ := matched_bind.1 h
  obtain ⟨a, c₁, ha, h⟩ := matched_bind.1 h
  obtain ⟨stop, c₂, hstop, h⟩ := matched_bind.1 h
  cases hstart
  cases hstop
  cases h
  exact ⟨a, rfl, hp _ _ _ ha⟩

/-- Rounds, each of which may begin with a part of the text that belongs to none. -/
theorem gives_rounds {R : α → Cursor → Cursor → Prop} (hp : p.Gives R)
    (hR : ∀ a c c', R a c c' → ∃ c₁, c.Reaches c₁ ∧ P a c₁ c') (n : Nat) : (rounds p n).Gives (Along P) := by
  induction n with
  | zero =>
    intro c as c' h
    cases h
    exact .nil (.refl c)
  | succ n ih =>
    intro c as c' h
    rw [rounds_matched] at h
    cases hpc : (p c).matched with
    | none =>
      rw [hpc] at h
      cases h
      exact .nil (.refl c)
    | some r =>
      rw [hpc] at h
      obtain ⟨⟨as', c₂⟩, has, he⟩ := Option.map_eq_some_iff.1 h
      cases he
      obtain ⟨c₀, hc₀, ha⟩ := hR _ _ _ (hp _ _ _ hpc)
      exact .cons hc₀ ha (ih _ _ _ has)

theorem gives_optional (hp : p.Gives P) :
    (optional p).Gives fun o c c' => (o = none ∧ c' = c) ∨ ∃ a, o = some a ∧ P a c c' := by
  refine gives_orElse (gives_bind hp ?_) ?_
  · intro a start c ha b c' hm
    cases hm
    exact .inr ⟨a, rfl, ha⟩
  · intro c a c' hm
    cases hm
    exact .inl ⟨rfl, rfl⟩

theorem moves_skip : skip.Moves := by
  intro c a c' h
  cases h
  exact .nil (Cursor.reaches_skipFrom _ _ _)

theorem gives_scan (split : List Char → Option (List Char × List Char)) : (scan split).Gives fun taken c c' =>
    split c.rest = some (taken, c'.rest) ∧ c'.place = c.place.advanceAll taken := by
  intro c taken c' hm
  unfold scan at hm
  rcases hs : split c.rest with _ | ⟨t, r⟩
  · rw [hs] at hm
    cases hm
  · rw [hs] at hm
    cases hm
    exact ⟨rfl, rfl⟩

/-- A scan only moves on if what it splits off is the beginning of the text. -/
theorem moves_scan {split : List Char → Option (List Char × List Char)}
    (hsplit : ∀ {cs taken rest}, split cs = some (taken, rest) → cs = taken ++ rest) : (scan split).Moves := by
  intro c taken c' hm
  obtain ⟨hs, hplace⟩ := gives_scan split c taken c' hm
  exact .nil ⟨taken, hsplit hs, hplace⟩

/-! ## Rows in sequence -/

/-- Behind the nodes `before`, a matcher reads the rest of those that its value stands for. -/
def Continues (before : List Node) (p : Matcher α) (nodes : α → List Node) : Prop :=
  ∀ start c a c', Row before start c → (p c).matched = some (a, c') → Row (nodes a) start c'

variable {before : List Node} {nodes : α → List Node} {nodes' : β → List Node}

theorem Rows.of_continues (h : Continues [] p nodes) : p.Rows nodes :=
  fun c _ _ hm => h c c _ _ (.nil (.refl c)) hm

theorem Rows.continues (hp : p.Rows nodes) : Continues [] p nodes :=
  fun _ _ _ _ hrow hm => (hp _ _ _ hm).behind hrow.reaches

theorem Continues.pure {b : β} (h : nodes' b = before) : Continues before (Pure.pure b) nodes' := by
  intro start c a c' hrow hm
  cases hm
  rwa [h]

theorem Continues.read (hp : p.Rows nodes) (hf : ∀ a, Continues (before ++ nodes a) (f a) nodes') :
    Continues before (p >>= f) nodes' := by
  intro start c b c' hrow hm
  obtain ⟨a, c₁, ha, hb⟩ := matched_bind.1 hm
  exact hf a _ _ _ _ (hrow.append (hp _ _ _ ha)) hb

theorem Continues.move (hp : p.Moves) (hf : ∀ a, Continues before (f a) nodes') : Continues before (p >>= f) nodes' :=
  .read hp fun a => by
    rw [List.append_nil]
    exact hf a

theorem Rows.optional (hp : p.Rows nodes) : (optional p).Rows fun o => o.toList.flatMap nodes := by
  intro c o c' hm
  obtain ⟨rfl, rfl⟩ | ⟨a, rfl, ha⟩ := gives_optional hp c o c' hm
  · exact .nil (.refl _)
  · simpa using ha

theorem Moves.optional (hp : p.Moves) : (optional p).Moves := by
  intro c o c' hm
  obtain ⟨rfl, rfl⟩ | ⟨a, rfl, ha⟩ := gives_optional hp c o c' hm
  · exact .nil (.refl _)
  · exact ha

theorem Rows.named (hp : p.Rows nodes) : p.named.Rows nodes :=
  gives_named hp

/-- Repeated rounds follow one another, with blanks between them. -/
theorem gives_repeated (hp : p.Gives P) (bound : Nat) : (repeated bound p).Gives (Along P) := by
  have hround : (skip >>= fun _ => p).Gives fun a c c' => ∃ c₁, c.Reaches c₁ ∧ P a c₁ c' :=
    gives_bind moves_skip fun _ start c hskip a c' ha => ⟨c, Row.reaches hskip, hp _ _ _ ha⟩
  refine gives_bind (gives_optional hp) ?_
  rintro o start c (⟨rfl, rfl⟩ | ⟨a, rfl, ha⟩) as c' hm
  · cases hm
    exact .nil (.refl _)
  · obtain ⟨others, c₁, hothers, hm⟩ := matched_bind.1 hm
    cases hm
    exact .cons (.refl _) ha (gives_rounds hround (fun _ _ _ h => h) bound _ _ _ hothers)

theorem Row.of_along {as : List α} {c c' : Cursor} (h : Along (fun a => Row (nodes a)) as c c') :
    Row (as.flatMap nodes) c c' := by
  induction h with
  | nil h => exact .nil h
  | cons h ha _ ih => exact (Along.append ha ih).behind h

theorem Rows.repeated (hp : p.Rows nodes) (bound : Nat) : (repeated bound p).Rows (List.flatMap nodes) :=
  fun _ _ _ hm => Row.of_along (gives_repeated hp bound _ _ _ hm)

/-- A first expression and the steps over what follows it. -/
theorem rows_foldl {first : Matcher Expr} (hfirst : first.Rows fun e => [.expr e]) (hp : p.Gives P)
    {step : Expr → α → Expr}
    (hstep : ∀ e a start c c', Row [.expr e] start c → P a c c' → Row [.expr (step e a)] start c') (bound : Nat) :
    Rows (do
      let e ← first
      skip
      let as ← repeated bound p
      Pure.pure (as.foldl step e)) fun e => [.expr e] := by
  refine gives_bind hfirst ?_
  intro e start c he e' c' hm
  obtain ⟨⟨⟩, c₁, hskip, hm⟩ := matched_bind.1 hm
  obtain ⟨as, c₂, has, hm⟩ := matched_bind.1 hm
  cases hm
  exact Along.foldl_row hstep (gives_repeated hp bound _ _ _ has) (he.append (moves_skip _ _ _ hskip))

/-- A rule that makes a node of what it reads. -/
theorem Rows.spanned {g : α → Span → β} {node : β → Node} (hp : ∀ s, p.Rows fun a => (node (g a s)).children)
    (hspan : ∀ a s, (node (g a s)).span = s) (hregular : ∀ a s, (node (g a s)).Regular) :
    (p.spanned g).Rows fun b => [node b] := by
  intro c b c' hm
  obtain ⟨a, rfl, hrow⟩ := gives_spanned (hp _) c b c' hm
  exact .single ⟨hrow.reaches, hspan _ _, hrow, hregular _ _⟩

end Matcher
end Grammar
end VirtualComputer
