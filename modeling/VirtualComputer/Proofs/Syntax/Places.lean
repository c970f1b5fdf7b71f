import Mathlib.Data.List.Basic
import VirtualComputer.Syntax.Tree

/-!
# Where statements stand in programs

A statement stands in a program inside the statements around it (`Stmt.Inside`), each of which has it in one of its
slots.  The statements around alone tell which loop is the innermost (`Enclosing.loop?`) and which names have been
declared before (`Enclosing.names`).  What a statement evaluates itself are its operands, and `Expr.names` lists the
names that an expression reads.
-/

namespace VirtualComputer

/-! ## Parts of statements -/

/-- Where in a statement a part of it stands. -/
inductive Slot where
  /-- A place in a block, counted from zero. -/
  | item (n : Nat)
  | yes
  | no
  /-- The body of a loop. -/
  | body
  /-- The body of a `try`. -/
  | attempted
  | handler
  deriving DecidableEq, Repr

namespace Stmt

/-- The statement in a slot. -/
def part? : Stmt → Slot → Option Stmt
  | .block body _, .item n => body[n]?
  | .branch _ s _ _, .yes => some s
  | .branch _ _ t _, .no => t
  | .loop _ s _, .body => some s
  | .attempt s _ _ _, .attempted => some s
  | .attempt _ _ t _, .handler => some t
  | _, _ => none

def isBranch : Stmt → Bool
  | .branch .. => true
  | _ => false

def isLoop : Stmt → Bool
  | .loop .. => true
  | _ => false

/-- Whether a statement drops the variables that its parts have made. -/
def isScope : Stmt → Bool
  | .block .. | .attempt .. => true
  | _ => false

/-- The name that a statement declares. -/
def declares? : Stmt → Option String
  | .declare x _ _ => some x
  | _ => none

/-- The names that a statement has declared for one of its slots: those of the statements before in a block, and the
name of an error for its handler. -/
def binds : Stmt → Slot → List String
  | .block body _, .item n => (body.take n).filterMap declares?
  | .attempt _ x _ _, .handler => [x]
  | _, _ => []

end Stmt

/-! ## Places in programs -/

/-- The statements around a place, from the innermost outwards, each with the slot that the place is in. -/
abbrev Enclosing := List (Stmt × Slot)

/-- The statement stands in the program inside those around it. -/
inductive Stmt.Inside (program : Stmt) : Enclosing → Stmt → Prop
  | program : Inside program [] program
  | part {around : Enclosing} {s t : Stmt} {slot : Slot} (h : Inside program around s) (ht : s.part? slot = some t) :
      Inside program ((s, slot) :: around) t

namespace Enclosing

/-- The names that have been declared before a place, by the blocks and handlers around it. -/
def names (around : Enclosing) : List String :=
  around.flatMap fun (s, slot) => s.binds slot

/-- The innermost loop around a place. -/
def loop? (around : Enclosing) : Option Stmt :=
  (around.map Prod.fst).find? Stmt.isLoop

theorem names_cons (s : Stmt) (slot : Slot) (around : Enclosing) :
    names ((s, slot) :: around) = s.binds slot ++ names around := rfl

theorem loop_cons_of_loop {s : Stmt} (h : s.isLoop) (slot : Slot) (around : Enclosing) :
    loop? ((s, slot) :: around) = some s := by
  simp [loop?, h]

theorem loop_cons {s : Stmt} (h : s.isLoop = false) (slot : Slot) (around : Enclosing) :
    loop? ((s, slot) :: around) = loop? around := by
  simp [loop?, h]

end Enclosing

/-- Branches declare nothing for their parts. -/
theorem Stmt.binds_of_branch {s : Stmt} (h : s.isBranch) (slot : Slot) : s.binds slot = [] := by
  cases s with
  | branch _ _ _ _ => rfl
  | _ => cases h

/-- Branches make no difference to the names that have been declared. -/
theorem Enclosing.names_filter (around : Enclosing) :
    names (around.filter fun p => !p.1.isBranch) = names around := by
  induction around with
  | nil => rfl
  | cons p around ih =>
    obtain ⟨s, slot⟩ := p
    rw [List.filter_cons]
    cases hs : s.isBranch with
    | true =>
      rw [names_cons, Stmt.binds_of_branch hs, if_neg (by simp)]
      exact ih
    | false =>
      rw [if_pos (by simp), names_cons, names_cons, ih]

namespace Stmt

/-- A statement that declares a name has no parts. -/
theorem declares_of_part {s t : Stmt} {slot : Slot} (h : s.part? slot = some t) : s.declares? = none := by
  cases s with
  | declare _ _ _ => cases h
  | _ => rfl

/-- The statement at a place of a block adds what it declares. -/
theorem mem_binds_succ {s t : Stmt} {n : ℕ} (h : s.part? (.item n) = some t) {x : String}
    (hx : x ∈ s.binds (.item (n + 1))) : x ∈ s.binds (.item n) ∨ t.declares? = some x := by
  cases s with
  | block body span =>
    have ht : body[n]? = some t := h
    rw [binds, List.take_add_one, ht, List.filterMap_append, List.mem_append] at hx
    rcases hx with hx | hx
    · exact .inl hx
    · rw [Option.toList_some, List.mem_filterMap] at hx
      obtain ⟨u, hu, hx⟩ := hx
      obtain rfl := List.mem_singleton.1 hu
      exact .inr hx
  | _ => cases h

end Stmt

/-! ## What statements evaluate -/

/-- The expression of a segment. -/
def Segment.key? : Segment → Option Expr
  | .property _ _ => none
  | .key e _ => some e

/-- The expressions that a statement evaluates itself. -/
def Stmt.operands : Stmt → List Expr
  | .declare _ init _ => init.toList
  | .assign _ path value _ => value :: path.filterMap Segment.key?
  | .branch test _ _ _ => [test]
  | .loop test _ _ => [test]
  | .return value _ => value.toList
  | .expr e _ => [e]
  | .block .. | .attempt .. | .break _ | .continue _ => []

mutual

/-- The names that an expression reads. -/
def Expr.names : Expr → List String
  | .ident x _ => [x]
  | .member e _ _ => e.names
  | .index e k _ => e.names ++ k.names
  | .call f es _ => f.names ++ Expr.namesAll es
  | .yield e _ => Expr.namesOption e
  | .logic _ l r _ => l.names ++ r.names
  | .list es _ => Expr.namesAll es
  | .object ps _ => Expr.namesProperties ps
  | .bool .. | .num .. | .str .. | .null _ => []

def Expr.namesAll : List Expr → List String
  | [] => []
  | e :: es => e.names ++ Expr.namesAll es

def Expr.namesProperties : List (String × Expr) → List String
  | [] => []
  | (_, e) :: ps => e.names ++ Expr.namesProperties ps

def Expr.namesOption : Option Expr → List String
  | none => []
  | some e => e.names

end

end VirtualComputer
