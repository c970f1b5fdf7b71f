import VirtualComputer.Syntax.Tree

/-!
# Programs without positions

The lists and options in a tree lose their positions one by one (`Expr.bareAll_eq`, `Stmt.bareAll_eq`), and they can be
lost only once (`Expr.bare_bare`, `Stmt.bare_bare`).
`Expr.numbers` and `Stmt.numbers` list the number literals of a tree.
-/

namespace VirtualComputer

/-! ## Forgetting positions -/

theorem Expr.bareAll_eq (es : List Expr) : Expr.bareAll es = es.map Expr.bare := by
  induction es with
  | nil => rfl
  | cons e es ih => rw [Expr.bareAll, ih, List.map_cons]

theorem Expr.bareProperties_eq (ps : List (String × Expr)) :
    Expr.bareProperties ps = ps.map fun p => (p.1, p.2.bare) := by
  induction ps with
  | nil => rfl
  | cons p ps ih => rw [Expr.bareProperties, ih, List.map_cons]

theorem Expr.bareOption_eq (e : Option Expr) : Expr.bareOption e = e.map Expr.bare := by
  cases e <;> rfl

theorem Stmt.bareAll_eq (body : List Stmt) : Stmt.bareAll body = body.map Stmt.bare := by
  induction body with
  | nil => rfl
  | cons s body ih => rw [Stmt.bareAll, ih, List.map_cons]

theorem Stmt.bareOption_eq (s : Option Stmt) : Stmt.bareOption s = s.map Stmt.bare := by
  cases s <;> rfl

mutual

theorem Expr.bare_bare : ∀ e : Expr, e.bare.bare = e.bare
  | .bool _ _ | .num _ _ | .str _ _ | .null _ | .ident _ _ => rfl
  | .list es _ => by rw [Expr.bare, Expr.bare, Expr.bareAll_bareAll es]
  | .object ps _ => by rw [Expr.bare, Expr.bare, Expr.bareProperties_bareProperties ps]
  | .member e _ _ => by rw [Expr.bare, Expr.bare, Expr.bare_bare e]
  | .index e k _ => by rw [Expr.bare, Expr.bare, Expr.bare_bare e, Expr.bare_bare k]
  | .call f es _ => by rw [Expr.bare, Expr.bare, Expr.bare_bare f, Expr.bareAll_bareAll es]
  | .yield e _ => by rw [Expr.bare, Expr.bare, Expr.bareOption_bareOption e]
  | .logic _ l r _ => by rw [Expr.bare, Expr.bare, Expr.bare_bare l, Expr.bare_bare r]

theorem Expr.bareAll_bareAll : ∀ es : List Expr, Expr.bareAll (Expr.bareAll es) = Expr.bareAll es
  | [] => rfl
  | e :: es => by rw [Expr.bareAll, Expr.bareAll, Expr.bare_bare e, Expr.bareAll_bareAll es]

theorem Expr.bareProperties_bareProperties : ∀ ps : List (String × Expr),
    Expr.bareProperties (Expr.bareProperties ps) = Expr.bareProperties ps
  | [] => rfl
  | (_, e) :: ps => by
    rw [Expr.bareProperties, Expr.bareProperties, Expr.bare_bare e, Expr.bareProperties_bareProperties ps]

theorem Expr.bareOption_bareOption : ∀ e : Option Expr, Expr.bareOption (Expr.bareOption e) = Expr.bareOption e
  | none => rfl
  | some e => congrArg some (Expr.bare_bare e)

end

theorem Expr.map_bare_bare (e : Option Expr) : (e.map Expr.bare).map Expr.bare = e.map Expr.bare := by
  cases e with
  | none => rfl
  | some e => exact congrArg some e.bare_bare

theorem Segment.bare_bare (g : Segment) : g.bare.bare = g.bare := by
  cases g with
  | property x span => rfl
  | key e span => rw [Segment.bare, Segment.bare, e.bare_bare]

mutual

theorem Stmt.bare_bare : ∀ s : Stmt, s.bare.bare = s.bare
  | .block body _ => by rw [Stmt.bare, Stmt.bare, Stmt.bareAll_bareAll body]
  | .declare _ e _ => by rw [Stmt.bare, Stmt.bare, Expr.map_bare_bare e]
  | .assign _ path e _ => by
    rw [Stmt.bare, Stmt.bare, List.map_map, List.map_congr_left fun g _ => g.bare_bare, e.bare_bare]
  | .branch e s t _ => by
    rw [Stmt.bare, Stmt.bare, e.bare_bare, Stmt.bare_bare s, Stmt.bareOption_bareOption t]
  | .loop e s _ => by rw [Stmt.bare, Stmt.bare, e.bare_bare, Stmt.bare_bare s]
  | .return e _ => by rw [Stmt.bare, Stmt.bare, Expr.map_bare_bare e]
  | .attempt s _ t _ => by rw [Stmt.bare, Stmt.bare, Stmt.bare_bare s, Stmt.bare_bare t]
  | .expr e _ => by rw [Stmt.bare, Stmt.bare, e.bare_bare]
  | .break _ | .continue _ => rfl

theorem Stmt.bareAll_bareAll : ∀ body : List Stmt, Stmt.bareAll (Stmt.bareAll body) = Stmt.bareAll body
  | [] => rfl
  | s :: body => by rw [Stmt.bareAll, Stmt.bareAll, Stmt.bare_bare s, Stmt.bareAll_bareAll body]

theorem Stmt.bareOption_bareOption : ∀ s : Option Stmt, Stmt.bareOption (Stmt.bareOption s) = Stmt.bareOption s
  | none => rfl
  | some s => congrArg some (Stmt.bare_bare s)

end

/-! ## Number literals -/

mutual

/-- The number literals of an expression. -/
def Expr.numbers : Expr → List Float
  | .num x _ => [x]
  | .list es _ => Expr.numbersAll es
  | .object ps _ => Expr.numbersProperties ps
  | .member e _ _ => e.numbers
  | .index e k _ => e.numbers ++ k.numbers
  | .call f es _ => f.numbers ++ Expr.numbersAll es
  | .yield e _ => Expr.numbersOption e
  | .logic _ l r _ => l.numbers ++ r.numbers
  | _ => []

def Expr.numbersAll : List Expr → List Float
  | [] => []
  | e :: es => e.numbers ++ Expr.numbersAll es

def Expr.numbersProperties : List (String × Expr) → List Float
  | [] => []
  | (_, e) :: ps => e.numbers ++ Expr.numbersProperties ps

def Expr.numbersOption : Option Expr → List Float
  | none => []
  | some e => e.numbers

end

/-- The number literals of a path segment. -/
def Segment.numbers : Segment → List Float
  | .property _ _ => []
  | .key e _ => e.numbers

mutual

/-- The number literals of a statement. -/
def Stmt.numbers : Stmt → List Float
  | .block body _ => Stmt.numbersAll body
  | .declare _ e _ => Expr.numbersOption e
  | .assign _ path e _ => path.flatMap Segment.numbers ++ e.numbers
  | .branch e s t _ => e.numbers ++ s.numbers ++ Stmt.numbersOption t
  | .loop e s _ => e.numbers ++ s.numbers
  | .return e _ => Expr.numbersOption e
  | .attempt s _ t _ => s.numbers ++ t.numbers
  | .expr e _ => e.numbers
  | .break _ | .continue _ => []

def Stmt.numbersAll : List Stmt → List Float
  | [] => []
  | s :: body => s.numbers ++ Stmt.numbersAll body

def Stmt.numbersOption : Option Stmt → List Float
  | none => []
  | some s => s.numbers

end

end VirtualComputer
