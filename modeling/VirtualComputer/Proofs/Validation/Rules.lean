import VirtualComputer.Validation

/-!
# What the rules report

Every rule reports errors under its own identifier (`rule_of_check`), so the problems of a program tell for each rule
whether it found anything (`unreported_iff`), and none has found anything in a program without errors
(`check_of_faultless`).
-/

namespace VirtualComputer

/-- All reports are errors made under a rule. -/
def Under (rule : Rule) (ps : List Problem) : Prop :=
  ∀ p ∈ ps, p.rule = rule.id ∧ p.isError

namespace Under

variable {rule : Rule} {ps qs : List Problem}

theorem nil : Under rule [] := fun _ h => absurd h List.not_mem_nil

theorem cons {p : Problem} (hp : p.rule = rule.id ∧ p.isError) (h : Under rule ps) : Under rule (p :: ps) :=
  List.forall_mem_cons.2 ⟨hp, h⟩

theorem append (h : Under rule ps) (h' : Under rule qs) : Under rule (ps ++ qs) :=
  List.forall_mem_append.2 ⟨h, h'⟩

theorem flatMap {α : Type} {f : α → List Problem} (h : ∀ a, Under rule (f a)) (xs : List α) :
    Under rule (xs.flatMap f) := by
  intro p hp
  obtain ⟨a, -, hp⟩ := List.mem_flatMap.1 hp
  exact h a p hp

end Under

/-! ## Nested yields -/

namespace NestedYield

mutual

theorem under_inExpr : ∀ e, Under .nestedYield (inExpr e)
  | .yield e _ => .cons ⟨rfl, rfl⟩ (under_inOption e)
  | .member e _ _ => under_inExpr e
  | .index e k _ => .append (under_inExpr e) (under_inExpr k)
  | .call f es _ => .append (under_inExpr f) (under_inExprs es)
  | .logic _ l r _ => .append (under_inExpr l) (under_inExpr r)
  | .list es _ => under_inExprs es
  | .object ps _ => under_inProperties ps
  | .ident .. | .bool .. | .num .. | .str .. | .null _ => .nil

theorem under_inExprs : ∀ es, Under .nestedYield (inExprs es)
  | [] => .nil
  | e :: es => .append (under_inExpr e) (under_inExprs es)

theorem under_inProperties : ∀ ps, Under .nestedYield (inProperties ps)
  | [] => .nil
  | (_, e) :: ps => .append (under_inExpr e) (under_inProperties ps)

theorem under_inOption : ∀ o, Under .nestedYield (inOption o)
  | none => .nil
  | some e => under_inExpr e

end

theorem under_inValue (e : Expr) : Under .nestedYield (inValue e) := by
  cases e with
  | yield e _ => exact under_inOption e
  | _ => exact under_inExpr _

theorem under_inOptionValue : ∀ o, Under .nestedYield (inOptionValue o)
  | none => .nil
  | some e => under_inValue e

theorem under_inSegment : ∀ p, Under .nestedYield (inSegment p)
  | .property .. => .nil
  | .key e _ => under_inExpr e

mutual

theorem under_inStmt : ∀ s, Under .nestedYield (inStmt s)
  | .block body _ => under_inBody body
  | .declare _ init _ => under_inOptionValue init
  | .assign _ path e _ => .append (.flatMap under_inSegment path) (under_inValue e)
  | .return e _ => under_inOptionValue e
  | .expr e _ => under_inValue e
  | .branch e s t _ => .append (.append (under_inExpr e) (under_inStmt s)) (under_inOptionStmt t)
  | .loop e s _ => .append (under_inExpr e) (under_inStmt s)
  | .attempt s _ t _ => .append (under_inStmt s) (under_inStmt t)
  | .break _ | .continue _ => .nil

theorem under_inBody : ∀ body, Under .nestedYield (inBody body)
  | [] => .nil
  | s :: body => .append (under_inStmt s) (under_inBody body)

theorem under_inOptionStmt : ∀ o, Under .nestedYield (inOptionStmt o)
  | none => .nil
  | some s => under_inStmt s

end

end NestedYield

/-! ## Undefined variables -/

namespace UndefinedVariable

theorem under_unknown (declared : List String) (x : String) (span : Span) (message : String) :
    Under .undefinedVariable (unknown declared x (.error .undefinedVariable span message)) := by
  rw [unknown]
  split
  · exact .nil
  · exact .cons ⟨rfl, rfl⟩ .nil

mutual

theorem under_inExpr (declared : List String) : ∀ e, Under .undefinedVariable (inExpr declared e)
  | .ident x _ => under_unknown declared x _ _
  | .member e _ _ => under_inExpr declared e
  | .index e k _ => .append (under_inExpr declared e) (under_inExpr declared k)
  | .call f es _ => .append (under_inExpr declared f) (under_inExprs declared es)
  | .yield e _ => under_inOption declared e
  | .logic _ l r _ => .append (under_inExpr declared l) (under_inExpr declared r)
  | .list es _ => under_inExprs declared es
  | .object ps _ => under_inProperties declared ps
  | .bool .. | .num .. | .str .. | .null _ => .nil

theorem under_inExprs (declared : List String) : ∀ es, Under .undefinedVariable (inExprs declared es)
  | [] => .nil
  | e :: es => .append (under_inExpr declared e) (under_inExprs declared es)

theorem under_inProperties (declared : List String) : ∀ ps, Under .undefinedVariable (inProperties declared ps)
  | [] => .nil
  | (_, e) :: ps => .append (under_inExpr declared e) (under_inProperties declared ps)

theorem under_inOption (declared : List String) : ∀ o, Under .undefinedVariable (inOption declared o)
  | none => .nil
  | some e => under_inExpr declared e

end

theorem under_inSegment (declared : List String) : ∀ p, Under .undefinedVariable (inSegment declared p)
  | .property .. => .nil
  | .key e _ => under_inExpr declared e

mutual

theorem under_inStmt (declared : List String) : ∀ s, Under .undefinedVariable (inStmt declared s)
  | .declare _ init _ => under_inOption declared init
  | .assign x path e _ => .append (.append (under_unknown declared x _ _)
      (.flatMap (under_inSegment declared) path)) (under_inExpr declared e)
  | .branch e s t _ => .append (.append (under_inExpr declared e) (under_inStmt declared s))
      (under_inOptionStmt declared t)
  | .loop e s _ => .append (under_inExpr declared e) (under_inStmt declared s)
  | .attempt s x t _ => .append (under_inStmt declared s) (under_inStmt (x :: declared) t)
  | .block body _ => under_inBody declared body
  | .return e _ => under_inOption declared e
  | .expr e _ => under_inExpr declared e
  | .break _ | .continue _ => .nil

theorem under_inBody (declared : List String) : ∀ body, Under .undefinedVariable (inBody declared body)
  | [] => .nil
  | s :: body => .append (under_inStmt declared s) (under_inBody (declaredAfter declared s) body)

theorem under_inOptionStmt (declared : List String) : ∀ o, Under .undefinedVariable (inOptionStmt declared o)
  | none => .nil
  | some s => under_inStmt declared s

end

end UndefinedVariable

/-! ## Stray loop control -/

namespace LoopControl

theorem under_stray (inLoop : Bool) (span : Span) (word : String) : Under .loopControl (stray inLoop span word) := by
  rw [stray]
  split
  · exact .nil
  · exact .cons ⟨rfl, rfl⟩ .nil

mutual

theorem under_inStmt (inLoop : Bool) : ∀ s, Under .loopControl (inStmt inLoop s)
  | .break _ | .continue _ => under_stray inLoop _ _
  | .block body _ => under_inBody inLoop body
  | .branch _ s t _ => .append (under_inStmt inLoop s) (under_inOptionStmt inLoop t)
  | .loop _ s _ => under_inStmt true s
  | .attempt s _ t _ => .append (under_inStmt inLoop s) (under_inStmt inLoop t)
  | .declare .. | .assign .. | .return .. | .expr .. => .nil

theorem under_inBody (inLoop : Bool) : ∀ body, Under .loopControl (inBody inLoop body)
  | [] => .nil
  | s :: body => .append (under_inStmt inLoop s) (under_inBody inLoop body)

theorem under_inOptionStmt (inLoop : Bool) : ∀ o, Under .loopControl (inOptionStmt inLoop o)
  | none => .nil
  | some s => under_inStmt inLoop s

end

end LoopControl

/-! ## All rules -/

/-- Every problem that a rule reports is an error and names it. -/
theorem rule_of_check (program : Stmt) (rule : Rule) : Under rule (rule.check program) := by
  cases rule with
  | undefinedVariable => exact UndefinedVariable.under_inStmt _ program
  | nestedYield => exact NestedYield.under_inStmt program
  | loopControl => exact LoopControl.under_inStmt _ program

theorem Rule.id_injective {a b : Rule} (h : a.id = b.id) : a = b := by
  cases a <;> cases b <;> first | rfl | exact absurd h (by decide)

theorem mem_problems {program : Stmt} {p : Problem} :
    p ∈ program.problems ↔ ∃ rule : Rule, p ∈ rule.check program := by
  rw [Stmt.problems, List.mem_mergeSort, List.mem_flatMap]
  refine ⟨fun ⟨rule, _, h⟩ => ⟨rule, h⟩, fun ⟨rule, h⟩ => ⟨rule, ?_, h⟩⟩
  cases rule <;> decide

/-- No problem is reported under a rule exactly when its check finds nothing. -/
theorem unreported_iff (program : Stmt) (rule : Rule) :
    (∀ p ∈ program.problems, p.rule ≠ rule.id) ↔ rule.check program = [] := by
  constructor
  · intro h
    rw [List.eq_nil_iff_forall_not_mem]
    intro p hp
    exact h p (mem_problems.2 ⟨rule, hp⟩) (rule_of_check program rule p hp).1
  · intro h p hp hr
    obtain ⟨rule', hp⟩ := mem_problems.1 hp
    obtain rfl : rule' = rule := Rule.id_injective ((rule_of_check program rule' p hp).1.symm.trans hr)
    rw [h] at hp
    exact absurd hp List.not_mem_nil

/-- In a program without errors no rule has found anything. -/
theorem check_of_faultless {program : Stmt} (h : program.problems.find? Problem.isError = none) (rule : Rule) :
    rule.check program = [] := by
  rw [List.eq_nil_iff_forall_not_mem]
  intro p hp
  exact List.find?_eq_none.1 h p (mem_problems.2 ⟨rule, hp⟩) (rule_of_check program rule p hp).2

end VirtualComputer
