import VirtualComputer.Proofs.Syntax.Places
import VirtualComputer.Proofs.Validation.Rules

/-!
# What the rules say of a place

A rule that finds nothing in a program finds nothing in the statements of it, either, with what is known at their
places: the names declared before them (`UndefinedVariable.inStmt_of_inside`) and whether there is a loop around them
(`LoopControl.inStmt_of_inside`).  So a name that is read or assigned has been declared before or is known from the
beginning (`names_known`, `target_known`), and loop control has a loop around it (`loop_of_break`, `loop_of_continue`).
-/

namespace VirtualComputer

/-! ## Names -/

namespace UndefinedVariable

theorem mem_of_unknown {declared : List String} {x : String} {p : Problem} (h : unknown declared x p = []) :
    x ∈ declared := by
  unfold unknown at h
  split at h
  · next hx => exact List.contains_iff_mem.1 hx
  · cases h

section Expressions

variable {declared : List String}

mutual

/-- The names that an expression reads have been declared. -/
theorem mem_of_inExpr : ∀ e : Expr, inExpr declared e = [] → ∀ x ∈ e.names, x ∈ declared
  | .ident y _, h, x, hx => by
    rw [Expr.names, List.mem_singleton] at hx
    rw [hx]
    exact mem_of_unknown h
  | .member e _ _, h, x, hx => mem_of_inExpr e h x hx
  | .index e k _, h, x, hx => by
    obtain ⟨he, hk⟩ := List.append_eq_nil_iff.1 h
    rcases List.mem_append.1 hx with hx | hx
    · exact mem_of_inExpr e he x hx
    · exact mem_of_inExpr k hk x hx
  | .call f es _, h, x, hx => by
    obtain ⟨hf, hes⟩ := List.append_eq_nil_iff.1 h
    rcases List.mem_append.1 hx with hx | hx
    · exact mem_of_inExpr f hf x hx
    · exact mem_of_inExprs es hes x hx
  | .yield o _, h, x, hx => mem_of_inOption o h x hx
  | .logic _ l r _, h, x, hx => by
    obtain ⟨hl, hr⟩ := List.append_eq_nil_iff.1 h
    rcases List.mem_append.1 hx with hx | hx
    · exact mem_of_inExpr l hl x hx
    · exact mem_of_inExpr r hr x hx
  | .list es _, h, x, hx => mem_of_inExprs es h x hx
  | .object ps _, h, x, hx => mem_of_inProperties ps h x hx
  | .bool .., _, _, hx | .num .., _, _, hx | .str .., _, _, hx | .null _, _, _, hx => by cases hx

theorem mem_of_inExprs : ∀ es : List Expr, inExprs declared es = [] → ∀ x ∈ Expr.namesAll es, x ∈ declared
  | [], _, _, hx => by cases hx
  | e :: es, h, x, hx => by
    obtain ⟨he, hes⟩ := List.append_eq_nil_iff.1 h
    rcases List.mem_append.1 hx with hx | hx
    · exact mem_of_inExpr e he x hx
    · exact mem_of_inExprs es hes x hx

theorem mem_of_inProperties : ∀ ps : List (String × Expr), inProperties declared ps = [] →
    ∀ x ∈ Expr.namesProperties ps, x ∈ declared
  | [], _, _, hx => by cases hx
  | (_, e) :: ps, h, x, hx => by
    obtain ⟨he, hps⟩ := List.append_eq_nil_iff.1 h
    rcases List.mem_append.1 hx with hx | hx
    · exact mem_of_inExpr e he x hx
    · exact mem_of_inProperties ps hps x hx

theorem mem_of_inOption : ∀ o : Option Expr, inOption declared o = [] → ∀ x ∈ Expr.namesOption o, x ∈ declared
  | none, _, _, hx => by cases hx
  | some e, h, x, hx => mem_of_inExpr e h x hx

end

end Expressions

/-- The operands of a statement are checked with the names declared before it. -/
theorem inExpr_of_operand {declared : List String} {s : Stmt} (h : inStmt declared s = []) {e : Expr}
    (he : e ∈ s.operands) : inExpr declared e = [] := by
  cases s with
  | declare x init span =>
    obtain rfl : init = some e := Option.mem_toList.1 he
    exact h
  | assign x path value span =>
    obtain ⟨hx, hvalue⟩ := List.append_eq_nil_iff.1 h
    obtain ⟨-, hpath⟩ := List.append_eq_nil_iff.1 hx
    rcases List.mem_cons.1 he with rfl | he
    · exact hvalue
    · obtain ⟨segment, hs, hk⟩ := List.mem_filterMap.1 he
      have hsegment : inSegment declared segment = [] := List.flatMap_eq_nil_iff.1 hpath segment hs
      cases segment with
      | property _ _ => cases hk
      | key k _ =>
        cases hk
        exact hsegment
  | branch test yes no span =>
    obtain rfl := List.mem_singleton.1 he
    exact (List.append_eq_nil_iff.1 (List.append_eq_nil_iff.1 h).1).1
  | loop test body span =>
    obtain rfl := List.mem_singleton.1 he
    exact (List.append_eq_nil_iff.1 h).1
  | «return» value span =>
    obtain rfl : value = some e := Option.mem_toList.1 he
    exact h
  | expr e' span =>
    obtain rfl := List.mem_singleton.1 he
    exact h
  | _ => cases he

/-! ## Names at a place -/

/-- The statement at a place of a sequence is checked with what those before it have declared. -/
theorem inStmt_of_inBody {declared : List String} {body : List Stmt} (h : inBody declared body = []) {n : ℕ} {s : Stmt}
    (hs : body[n]? = some s) : inStmt ((body.take n).foldl declaredAfter declared) s = [] := by
  induction body generalizing declared n with
  | nil => cases hs
  | cons t body ih =>
    obtain ⟨ht, hbody⟩ := List.append_eq_nil_iff.1 h
    cases n with
    | zero =>
      cases hs
      exact ht
    | succ n => exact ih hbody hs

theorem mem_foldl_declaredAfter {x : String} {body : List Stmt} {declared : List String}
    (h : x ∈ body.foldl declaredAfter declared) : x ∈ body.filterMap Stmt.declares? ∨ x ∈ declared := by
  induction body generalizing declared with
  | nil => exact .inr h
  | cons s body ih =>
    rcases ih h with h | h
    · exact .inl (((List.sublist_cons_self s body).filterMap _).subset h)
    · cases s with
      | declare y init span =>
        rcases List.mem_cons.1 h with rfl | h
        · exact .inl List.mem_cons_self
        · exact .inr h
      | _ => exact .inr h

/-- A part is checked with no other names than those declared for it. -/
theorem inStmt_of_part {declared : List String} {s t : Stmt} {slot : Slot} (h : inStmt declared s = [])
    (ht : s.part? slot = some t) : ∃ known, inStmt known t = [] ∧ ∀ x ∈ known, x ∈ s.binds slot ∨ x ∈ declared := by
  cases s with
  | block body span =>
    cases slot with
    | item n => exact ⟨_, inStmt_of_inBody h ht, fun x hx => mem_foldl_declaredAfter hx⟩
    | _ => cases ht
  | branch test yes no span =>
    obtain ⟨hyes, hno⟩ := List.append_eq_nil_iff.1 h
    cases slot with
    | yes =>
      cases ht
      exact ⟨declared, (List.append_eq_nil_iff.1 hyes).2, fun _ hx => .inr hx⟩
    | no =>
      obtain rfl : no = some t := ht
      exact ⟨declared, hno, fun _ hx => .inr hx⟩
    | _ => cases ht
  | loop test body span =>
    cases slot with
    | body =>
      cases ht
      exact ⟨declared, (List.append_eq_nil_iff.1 h).2, fun _ hx => .inr hx⟩
    | _ => cases ht
  | attempt body y handler span =>
    obtain ⟨hbody, hhandler⟩ := List.append_eq_nil_iff.1 h
    cases slot with
    | attempted =>
      cases ht
      exact ⟨declared, hbody, fun _ hx => .inr hx⟩
    | handler =>
      cases ht
      refine ⟨y :: declared, hhandler, fun x hx => ?_⟩
      exact (List.mem_cons.1 hx).imp_left List.mem_singleton.2
    | _ => cases ht
  | _ => cases ht

/-- A statement is checked with no other names than those declared before its place and those known from the
beginning. -/
theorem inStmt_of_inside {declared : List String} {program : Stmt} (h : inStmt declared program = [])
    {around : Enclosing} {s : Stmt} (hs : program.Inside around s) :
    ∃ known, inStmt known s = [] ∧ ∀ x ∈ known, x ∈ around.names ∨ x ∈ declared := by
  induction hs with
  | program => exact ⟨declared, h, fun _ hx => .inr hx⟩
  | @part around s t slot _ ht ih =>
    obtain ⟨known, hknown, hnames⟩ := ih
    obtain ⟨known', hknown', hnames'⟩ := inStmt_of_part hknown ht
    refine ⟨known', hknown', fun x hx => ?_⟩
    rw [Enclosing.names_cons, List.mem_append, or_assoc]
    exact (hnames' x hx).imp_right (hnames x)

section

variable {declared : List String} {program : Stmt} (h : inStmt declared program = []) {around : Enclosing} {s : Stmt}
  (hs : program.Inside around s)
include h hs

/-- The names that a statement reads have been declared before it or are known from the beginning. -/
theorem names_known {e : Expr} (he : e ∈ s.operands) : ∀ x ∈ e.names, x ∈ around.names ∨ x ∈ declared := by
  intro x hx
  obtain ⟨known, hknown, hnames⟩ := inStmt_of_inside h hs
  exact hnames x (mem_of_inExpr e (inExpr_of_operand hknown he) x hx)

/-- So has the name that it assigns. -/
theorem target_known {x : String} {path : List Segment} {value : Expr} {span : Span}
    (hx : s = .assign x path value span) : x ∈ around.names ∨ x ∈ declared := by
  obtain ⟨known, hknown, hnames⟩ := inStmt_of_inside h hs
  rw [hx] at hknown
  exact hnames x (mem_of_unknown (List.append_eq_nil_iff.1 (List.append_eq_nil_iff.1 hknown).1).1)

end

end UndefinedVariable

/-! ## Loops at a place -/

namespace LoopControl

theorem inStmt_of_inBody {inLoop : Bool} {body : List Stmt} (h : inBody inLoop body = []) {s : Stmt} (hs : s ∈ body) :
    inStmt inLoop s = [] := by
  induction body with
  | nil => cases hs
  | cons t body ih =>
    obtain ⟨ht, hbody⟩ := List.append_eq_nil_iff.1 h
    rcases List.mem_cons.1 hs with rfl | hs
    · exact ht
    · exact ih hbody hs

theorem inStmt_of_part {inLoop : Bool} {s t : Stmt} {slot : Slot} (h : inStmt inLoop s = [])
    (ht : s.part? slot = some t) : inStmt (s.isLoop || inLoop) t = [] := by
  cases s with
  | block body span =>
    cases slot with
    | item n => exact inStmt_of_inBody h (List.mem_of_getElem? ht)
    | _ => cases ht
  | branch test yes no span =>
    obtain ⟨hyes, hno⟩ := List.append_eq_nil_iff.1 h
    cases slot with
    | yes =>
      cases ht
      exact hyes
    | no =>
      obtain rfl : no = some t := ht
      exact hno
    | _ => cases ht
  | loop test body span =>
    cases slot with
    | body =>
      cases ht
      exact h
    | _ => cases ht
  | attempt body y handler span =>
    obtain ⟨hbody, hhandler⟩ := List.append_eq_nil_iff.1 h
    cases slot with
    | attempted =>
      cases ht
      exact hbody
    | handler =>
      cases ht
      exact hhandler
    | _ => cases ht
  | _ => cases ht

/-- A statement is checked as in a loop exactly if there is a loop around it. -/
theorem inStmt_of_inside {program : Stmt} (h : inStmt false program = []) {around : Enclosing} {s : Stmt}
    (hs : program.Inside around s) : inStmt around.loop?.isSome s = [] := by
  induction hs with
  | program => exact h
  | @part around s t slot _ ht ih =>
    have hpart := inStmt_of_part ih ht
    cases hl : s.isLoop with
    | true =>
      rw [hl] at hpart
      rw [Enclosing.loop_cons_of_loop hl]
      exact hpart
    | false =>
      rw [hl] at hpart
      rw [Enclosing.loop_cons hl]
      exact hpart

theorem enclosed_of_stray {inLoop : Bool} {span : Span} {word : String} (h : stray inLoop span word = []) :
    inLoop = true := by
  unfold stray at h
  split at h
  · next hl => exact hl
  · cases h

variable {program : Stmt} (h : inStmt false program = []) {around : Enclosing} {span : Span}
include h

theorem loop_of_break (hs : program.Inside around (.break span)) : ∃ l, around.loop? = some l :=
  Option.isSome_iff_exists.1 (enclosed_of_stray (inStmt_of_inside h hs))

theorem loop_of_continue (hs : program.Inside around (.continue span)) : ∃ l, around.loop? = some l :=
  Option.isSome_iff_exists.1 (enclosed_of_stray (inStmt_of_inside h hs))

end LoopControl

end VirtualComputer
