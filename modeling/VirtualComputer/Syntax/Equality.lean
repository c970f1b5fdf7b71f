import VirtualComputer.Syntax.Tree

/-!
# Equality of syntax trees

Trees are compared node by node, positions included.  Number literals compare as numbers, so a
tree with an undefined number differs from itself.
-/

namespace VirtualComputer

mutual

/-- Whether two expressions are equal. -/
def Expr.equal : Expr → Expr → Bool
  | .bool v s, .bool w t => v == w && s == t
  | .num v s, .num w t => v == w && s == t
  | .str v s, .str w t => v == w && s == t
  | .null s, .null t => s == t
  | .list es s, .list fs t => Expr.equalAll es fs && s == t
  | .object ps s, .object qs t => Expr.equalProperties ps qs && s == t
  | .ident x s, .ident y t => x == y && s == t
  | .member e p s, .member f q t => e.equal f && p == q && s == t
  | .index e k s, .index f l t => e.equal f && k.equal l && s == t
  | .call e es s, .call f fs t => e.equal f && Expr.equalAll es fs && s == t
  | .yield e s, .yield f t => Expr.equalOption e f && s == t
  | .logic o l r s, .logic p m q t => o == p && l.equal m && r.equal q && s == t
  | _, _ => false

def Expr.equalAll : List Expr → List Expr → Bool
  | [], [] => true
  | e :: es, f :: fs => e.equal f && Expr.equalAll es fs
  | _, _ => false

def Expr.equalProperties : List (String × Expr) → List (String × Expr) → Bool
  | [], [] => true
  | (k, e) :: ps, (l, f) :: qs => k == l && e.equal f && Expr.equalProperties ps qs
  | _, _ => false

def Expr.equalOption : Option Expr → Option Expr → Bool
  | none, none => true
  | some e, some f => e.equal f
  | _, _ => false

end

instance : BEq Expr := ⟨Expr.equal⟩

/-- Whether two path segments are equal. -/
def Segment.equal : Segment → Segment → Bool
  | .property x s, .property y t => x == y && s == t
  | .key e s, .key f t => e == f && s == t
  | _, _ => false

instance : BEq Segment := ⟨Segment.equal⟩

mutual

/-- Whether two statements are equal. -/
def Stmt.equal : Stmt → Stmt → Bool
  | .block b s, .block c t => Stmt.equalAll b c && s == t
  | .declare x e s, .declare y f t => x == y && e == f && s == t
  | .assign x p e s, .assign y q f t => x == y && p == q && e == f && s == t
  | .branch e b c s, .branch f d g t => e == f && b.equal d && Stmt.equalOption c g && s == t
  | .loop e b s, .loop f c t => e == f && b.equal c && s == t
  | .return e s, .return f t => e == f && s == t
  | .attempt b x h s, .attempt c y g t => b.equal c && x == y && h.equal g && s == t
  | .expr e s, .expr f t => e == f && s == t
  | .break s, .break t => s == t
  | .continue s, .continue t => s == t
  | _, _ => false

def Stmt.equalAll : List Stmt → List Stmt → Bool
  | [], [] => true
  | a :: as, b :: bs => a.equal b && Stmt.equalAll as bs
  | _, _ => false

def Stmt.equalOption : Option Stmt → Option Stmt → Bool
  | none, none => true
  | some a, some b => a.equal b
  | _, _ => false

end

instance : BEq Stmt := ⟨Stmt.equal⟩

end VirtualComputer
