import Mathlib.Data.List.Flatten
import VirtualComputer.Grammar.Lexeme
import VirtualComputer.Syntax.Tree

/-!
# Expressions as they are written

A term is an expression in the operators of the source, with every literal spelled as it is written.  `Term.text` writes
it with single spaces around binary operators and in parentheses only where its rank is too low for where it stands, and
`Term.tree` is the syntax tree that it denotes: operators other than `&&` and `||` call their builtin.
-/

namespace VirtualComputer

/-! ## Literals and names -/

/-- A run of at least one digit. -/
def Digits : Type := { ds : List Char // ds ≠ [] ∧ ∀ d ∈ ds, d.isDigit }

theorem Digits.exists_cons (n : Digits) : ∃ d ds, n.1 = d :: ds ∧ d.isDigit := by
  obtain ⟨d, ds, h⟩ := List.exists_cons_of_ne_nil n.2.1
  exact ⟨d, ds, h, n.2.2 d (by rw [h]; exact List.mem_cons_self)⟩

/-- The power of ten of a number, with a mark of either case and perhaps a sign, where `true` stands for a minus. -/
structure PowerOfTen where
  upper : Bool
  sign : Option Bool
  digits : Digits

structure NumberLiteral where
  whole : Digits
  fraction : Option Digits
  power : Option PowerOfTen

namespace PowerOfTen

def letter (p : PowerOfTen) : Char :=
  if p.upper then 'E' else 'e'

def signText (p : PowerOfTen) : List Char :=
  p.sign.elim [] fun minus => [if minus then '-' else '+']

def text (p : PowerOfTen) : List Char :=
  p.letter :: (p.signText ++ p.digits.1)

def exponent (p : PowerOfTen) : Int :=
  if p.sign = some true then -(Decimal.ofDigits p.digits.1 : Int) else Decimal.ofDigits p.digits.1

end PowerOfTen

namespace NumberLiteral

/-- The point with the digits after it. -/
def point (n : NumberLiteral) : List Char :=
  n.fraction.elim [] fun ds => '.' :: ds.1

/-- The power of ten with its mark. -/
def mark (n : NumberLiteral) : List Char :=
  n.power.elim [] PowerOfTen.text

def text (n : NumberLiteral) : List Char :=
  n.whole.1 ++ (n.point ++ n.mark)

/-- The double nearest to the number. -/
def value (n : NumberLiteral) : Float :=
  Decimal.Numeral.toFloat ⟨none, n.whole.1, n.fraction.map Subtype.val, n.power.map PowerOfTen.exponent⟩

end NumberLiteral

/-- The quotes that a string may stand in. -/
inductive Quote where
  | single
  | double

namespace Quote

def char : Quote → Char
  | .single => '\''
  | .double => '"'

/-- Quotes and backslashes are written behind a backslash. -/
def escape (c : Char) : List Char :=
  if c = '"' ∨ c = '\'' ∨ c = '\\' then ['\\', c] else [c]

/-- A string literal. -/
def enclose (q : Quote) (s : String) : List Char :=
  q.char :: (s.toList.flatMap escape ++ [q.char])

end Quote

/-- A name that is not reserved. -/
structure Name where
  text : List Char
  wordy : ∀ c ∈ text, Grammar.isWordChar c
  start : ∃ c ∈ text.head?, c.isDigit = false
  free : String.ofList text ∉ Grammar.reservedWords

/-- A key of an object literal. -/
inductive Key where
  | name (x : Name)
  | quoted (q : Quote) (s : String)

namespace Key

def text : Key → List Char
  | .name x => x.text
  | .quoted q s => q.enclose s

def value : Key → String
  | .name x => String.ofList x.text
  | .quoted _ s => s

end Key

/-! ## Operators -/

inductive UnaryOp where
  | not
  | neg

namespace UnaryOp

def char : UnaryOp → Char
  | .not => '!'
  | .neg => '-'

def builtin : UnaryOp → String
  | .not => "not"
  | .neg => "neg"

end UnaryOp

inductive BinaryOp where
  | or | and
  | eq | ne
  | lte | gte | lt | gt
  | add | sub
  | mul | div | mod
  deriving DecidableEq

namespace BinaryOp

def text : BinaryOp → List Char
  | .or => ['|', '|']
  | .and => ['&', '&']
  | .eq => ['=', '=']
  | .ne => ['!', '=']
  | .lte => ['<', '=']
  | .gte => ['>', '=']
  | .lt => ['<']
  | .gt => ['>']
  | .add => ['+']
  | .sub => ['-']
  | .mul => ['*']
  | .div => ['/']
  | .mod => ['%']

/-- How tightly an operator binds. -/
def level : BinaryOp → Nat
  | .or => 1
  | .and => 2
  | .eq | .ne => 3
  | .lte | .gte | .lt | .gt => 4
  | .add | .sub => 5
  | .mul | .div | .mod => 6

theorem level_pos (op : BinaryOp) : 0 < op.level := by
  cases op <;> decide

theorem level_le (op : BinaryOp) : op.level ≤ 6 := by
  cases op <;> decide

/-- What an operator makes of the trees of its operands. -/
def apply (op : BinaryOp) (left right : Expr) : Expr :=
  let call (builtin : String) := Expr.builtin builtin [left, right] .none
  match op with
  | .or => .logic .or left right .none
  | .and => .logic .and left right .none
  | .eq => call "eq"
  | .ne => call "ne"
  | .lte => call "lte"
  | .gte => call "gte"
  | .lt => call "lt"
  | .gt => call "gt"
  | .add => call "add"
  | .sub => call "sub"
  | .mul => call "mul"
  | .div => call "div"
  | .mod => call "mod"

end BinaryOp

/-! ## Terms -/

inductive Term where
  | number (n : NumberLiteral)
  | string (q : Quote) (s : String)
  | bool (b : Bool)
  | null
  | name (x : Name)
  | list (items : List Term)
  | object (properties : List (Key × Term))
  | member (head : Term) (x : Name)
  | index (head key : Term)
  | call (head : Term) (args : List Term)
  | unary (op : UnaryOp) (operand : Term)
  | binary (op : BinaryOp) (left right : Term)
  | yield (operand : Option Term)

/-- Items with commas between them. -/
def commas : List (List Char) → List Char
  | [] => []
  | t :: ts => t ++ ts.flatMap fun t => ',' :: ' ' :: t

section Lengths

variable {α : Type} {xs : List α} {f : α → List Char}

theorem length_le_flatMap (h : ∀ x ∈ xs, f x ≠ []) : xs.length ≤ (xs.flatMap f).length := by
  induction xs with
  | nil => exact Nat.le_refl 0
  | cons x xs ih =>
    obtain ⟨hx, hxs⟩ := List.forall_mem_cons.1 h
    have hpos := List.length_pos_iff.2 hx
    have hle := ih hxs
    rw [List.flatMap_cons, List.length_append, List.length_cons]
    omega

theorem length_le_flatMap_of_mem {x : α} (h : x ∈ xs) : (f x).length ≤ (xs.flatMap f).length := by
  have hle := ((List.singleton_sublist.2 h).flatMap f).length_le
  rwa [List.flatMap_singleton] at hle

theorem length_le_commas (ts : List (List Char)) : ts.length ≤ (commas ts).length + 1 := by
  cases ts with
  | nil => exact Nat.zero_le _
  | cons t ts =>
    have hts := length_le_flatMap (f := fun t => ',' :: ' ' :: t) fun t (_ : t ∈ ts) => List.cons_ne_nil _ _
    rw [commas, List.length_append, List.length_cons]
    omega

theorem length_le_commas_of_mem {t : List Char} {ts : List (List Char)} (h : t ∈ ts) :
    t.length ≤ (commas ts).length := by
  cases ts with
  | nil => cases h
  | cons u us =>
    rw [commas, List.length_append]
    obtain rfl | h := List.mem_cons.1 h
    · omega
    · have hle := length_le_flatMap_of_mem (f := fun t => ',' :: ' ' :: t) h
      rw [List.length_cons, List.length_cons] at hle
      omega

end Lengths

namespace Term

/-- How tightly the outermost operator of a term binds: `yield` weaker than all binary operators, those weaker than
unary ones, and those weaker than suffixes. -/
def rank : Term → Nat
  | .yield _ => 0
  | .binary op _ _ => op.level
  | .unary .. => 7
  | .member .. | .index .. | .call .. => 8
  | .number _ | .string .. | .bool _ | .null | .name _ | .list _ | .object _ => 9

theorem rank_le (t : Term) : t.rank ≤ 9 := by
  cases t with
  | binary op => exact Nat.le_trans op.level_le (by decide)
  | _ => simp only [rank, Nat.reduceLeDiff, Nat.zero_le, Nat.le_refl]

/-- The text of a term of some rank where another rank is needed. -/
def enclosed (needed rank : Nat) (text : List Char) : List Char :=
  if rank < needed then '(' :: (text ++ [')']) else text

mutual

/-- A term as it is written.  All binary operators group to the left. -/
def text : Term → List Char
  | .number n => n.text
  | .string q s => q.enclose s
  | .bool true => ['t', 'r', 'u', 'e']
  | .bool false => ['f', 'a', 'l', 's', 'e']
  | .null => ['n', 'u', 'l', 'l']
  | .name x => x.text
  | .list ts => '[' :: (commas (texts ts) ++ [']'])
  | .object ps => '\x7b' :: (commas (propertyTexts ps) ++ ['\x7d'])
  | .member t x => enclosed 8 t.rank t.text ++ '.' :: x.text
  | .index t k => enclosed 8 t.rank t.text ++ '[' :: (k.text ++ [']'])
  | .call t args => enclosed 8 t.rank t.text ++ '(' :: (commas (texts args) ++ [')'])
  | .unary op t => op.char :: enclosed 7 t.rank t.text
  | .binary op l r =>
    enclosed op.level l.rank l.text ++ ' ' :: (op.text ++ ' ' :: enclosed (op.level + 1) r.rank r.text)
  | .yield none => ['y', 'i', 'e', 'l', 'd']
  | .yield (some t) => ['y', 'i', 'e', 'l', 'd', ' '] ++ t.text

def texts : List Term → List (List Char)
  | [] => []
  | t :: ts => t.text :: texts ts

def propertyTexts : List (Key × Term) → List (List Char)
  | [] => []
  | (k, t) :: ps => (k.text ++ ':' :: ' ' :: t.text) :: propertyTexts ps

end

mutual

/-- The syntax tree of a term, without positions. -/
def tree : Term → Expr
  | .number n => .num n.value .none
  | .string _ s => .str s .none
  | .bool b => .bool b .none
  | .null => .null .none
  | .name x => .ident (String.ofList x.text) .none
  | .list ts => .list (trees ts) .none
  | .object ps => .object (propertyTrees ps) .none
  | .member t x => .member t.tree (String.ofList x.text) .none
  | .index t k => .index t.tree k.tree .none
  | .call t args => .call t.tree (trees args) .none
  | .unary op t => .builtin op.builtin [t.tree] .none
  | .binary op l r => op.apply l.tree r.tree
  | .yield none => .yield none .none
  | .yield (some t) => .yield (some t.tree) .none

def trees : List Term → List Expr
  | [] => []
  | t :: ts => t.tree :: trees ts

def propertyTrees : List (Key × Term) → List (String × Expr)
  | [] => []
  | (k, t) :: ps => (k.value, t.tree) :: propertyTrees ps

end

/-- The source text of a term. -/
def render (t : Term) : String :=
  String.ofList t.text

theorem texts_eq (ts : List Term) : texts ts = ts.map text := by
  induction ts with
  | nil => rfl
  | cons t ts ih => rw [texts, ih, List.map_cons]

/-- A key and its value as they are written. -/
def propertyText (p : Key × Term) : List Char :=
  p.1.text ++ ':' :: ' ' :: p.2.text

theorem propertyTexts_eq (ps : List (Key × Term)) : propertyTexts ps = ps.map propertyText := by
  induction ps with
  | nil => rfl
  | cons p ps ih => rw [propertyTexts, ih, List.map_cons, propertyText]

theorem trees_eq (ts : List Term) : trees ts = ts.map tree := by
  induction ts with
  | nil => rfl
  | cons t ts ih => rw [trees, ih, List.map_cons]

theorem propertyTrees_eq (ps : List (Key × Term)) :
    propertyTrees ps = ps.map fun p => (p.1.value, p.2.tree) := by
  induction ps with
  | nil => rfl
  | cons p ps ih => rw [propertyTrees, ih, List.map_cons]

theorem text_list (ts : List Term) : (list ts).text = '[' :: (commas (ts.map text) ++ [']']) := by
  rw [text, texts_eq]

theorem text_object (ps : List (Key × Term)) :
    (object ps).text = '\x7b' :: (commas (ps.map propertyText) ++ ['\x7d']) := by
  rw [text, propertyTexts_eq]

theorem text_call (t : Term) (args : List Term) :
    (call t args).text = enclosed 8 t.rank t.text ++ '(' :: (commas (args.map text) ++ [')']) := by
  rw [text, texts_eq]

theorem tree_list (ts : List Term) : (list ts).tree = .list (ts.map tree) .none := by
  rw [tree, trees_eq]

theorem tree_object (ps : List (Key × Term)) :
    (object ps).tree = .object (ps.map fun p => (p.1.value, p.2.tree)) .none := by
  rw [tree, propertyTrees_eq]

theorem tree_call (t : Term) (args : List Term) : (call t args).tree = .call t.tree (args.map tree) .none := by
  rw [tree, trees_eq]

/-- A term as it is written where some rank is needed. -/
def textAt (needed : Nat) (t : Term) : List Char :=
  enclosed needed t.rank t.text

end Term

end VirtualComputer
