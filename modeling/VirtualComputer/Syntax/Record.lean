import VirtualComputer.Json.Fields
import VirtualComputer.Syntax.Tree

/-!
# Stored syntax trees

A node is stored as an object whose member `t` names its kind, followed by the fields of that
kind; positions are not stored.  `Stmt.ofWhole?` reads at most a given number of nested nodes, and
every node it builds has the empty span.
-/

namespace VirtualComputer

open Json

/-! ## Writing -/

/-- The name under which a connective is stored. -/
def Connective.tag : Connective → String
  | .and => "And"
  | .or => "Or"

/-- A stored node: its kind, then its fields. -/
def node (kind : String) (fields : List (String × Json)) : Json :=
  .obj (("t", .str kind) :: fields)

mutual

/-- The stored form of an expression. -/
def Expr.toJson : Expr → Json
  | .bool v _ => node "LitBool" [("v", .bool v)]
  | .num v _ => node "LitNum" [("v", .float v)]
  | .str v _ => node "LitStr" [("v", .str v)]
  | .null _ => node "LitNull" []
  | .list es _ => node "LitList" [("elements", .arr (Expr.toJsonAll es))]
  | .object ps _ => node "LitObj" [("properties", .arr (Expr.toJsonProperties ps))]
  | .ident x _ => node "Ident" [("name", .str x)]
  | .member e p _ => node "Member" [("object", e.toJson), ("property", .str p)]
  | .index e k _ => node "Index" [("object", e.toJson), ("index", k.toJson)]
  | .call f es _ => node "Call" [("callee", f.toJson), ("args", .arr (Expr.toJsonAll es))]
  | .yield e _ => node "Yield" [("inner", Expr.toJsonOption e)]
  | .logic op l r _ =>
    node "BinaryOp" [("op", .str op.tag), ("left", l.toJson), ("right", r.toJson)]

def Expr.toJsonAll : List Expr → List Json
  | [] => []
  | e :: es => e.toJson :: Expr.toJsonAll es

def Expr.toJsonProperties : List (String × Expr) → List Json
  | [] => []
  | (k, e) :: ps => .arr [.str k, e.toJson] :: Expr.toJsonProperties ps

def Expr.toJsonOption : Option Expr → Json
  | none => .null
  | some e => e.toJson

end

/-- The stored form of a path segment. -/
def Segment.toJson : Segment → Json
  | .property x _ => node "Prop" [("property", .str x)]
  | .key e _ => node "Index" [("expr", e.toJson)]

mutual

/-- The stored form of a statement. -/
def Stmt.toJson : Stmt → Json
  | .block body _ => node "Block" [("body", .arr (Stmt.toJsonAll body))]
  | .declare x e _ => node "Declare" [("name", .str x), ("init", ofOption Expr.toJson e)]
  | .assign x path e _ =>
    node "Assign" [("var", .str x), ("path", .arr (path.map Segment.toJson)), ("value", e.toJson)]
  | .branch e s t _ =>
    node "If" [("test", e.toJson), ("then_s", s.toJson), ("else_s", Stmt.toJsonOption t)]
  | .loop e s _ => node "While" [("test", e.toJson), ("body", s.toJson)]
  | .return e _ => node "Return" [("value", ofOption Expr.toJson e)]
  | .attempt s x t _ =>
    node "Try" [("body", s.toJson), ("catch_var", .str x), ("catch_body", t.toJson)]
  | .expr e _ => node "Expr" [("expr", e.toJson)]
  | .break _ => node "Break" []
  | .continue _ => node "Continue" []

def Stmt.toJsonAll : List Stmt → List Json
  | [] => []
  | s :: body => s.toJson :: Stmt.toJsonAll body

def Stmt.toJsonOption : Option Stmt → Json
  | none => .null
  | some s => s.toJson

end

/-! ## Reading -/

/-- The connective stored under a name. -/
def Connective.ofTag? : String → Option Connective
  | "And" => some .and
  | "Or" => some .or
  | _ => none

/-- The kinds of expressions, in the order of their numbers. -/
def Expr.kinds : List String := [
  "LitBool", "LitNum", "LitStr", "LitNull", "LitList", "LitObj", "Ident", "Member", "Index", "Call",
  "Yield", "BinaryOp"]

/-- The kinds of path segments, in the order of their numbers. -/
def Segment.kinds : List String := ["Prop", "Index"]

/-- The kinds of statements, in the order of their numbers. -/
def Stmt.kinds : List String := [
  "Block", "Declare", "Assign", "If", "While", "Return", "Try", "Expr", "Break", "Continue"]

/-- The kind and fields of a stored node. -/
def node? (p : Pace) (kinds : List String) (j : Json) : Option (String × Fields) :=
  (Fields.of? j).bind (Fields.tagged? "t" (kind? p kinds))

/-- A key with its expression, stored as a pair. -/
def property? (decode : Json → Option Expr) : Json → Option (String × Expr)
  | .arr [.str k, j] => (decode j).map fun e => (k, e)
  | _ => none

/-- Reads an expression of at most the given depth. -/
def Expr.ofJson? : Nat → Json → Option Expr
  | 0, _ => none
  | n + 1, j => do
    let (kind, fields) ← node? .afterwards Expr.kinds j
    match kind with
    | "LitBool" => match ← fields.collect? ["v"] with
      | [v] => return .bool (← required? asBool? v) .none
      | _ => none
    | "LitNum" => match ← fields.collect? ["v"] with
      | [v] => return .num (← required? asFloat? v) .none
      | _ => none
    | "LitStr" => match ← fields.collect? ["v"] with
      | [v] => return .str (← required? asStr? v) .none
      | _ => none
    | "LitNull" => match ← fields.collect? [] with
      | [] => return .null .none
      | _ => none
    | "LitList" => match ← fields.collect? ["elements"] with
      | [es] => return .list (← required? (list? (ofJson? n)) es) .none
      | _ => none
    | "LitObj" => match ← fields.collect? ["properties"] with
      | [ps] => return .object (← required? (list? (property? (ofJson? n))) ps) .none
      | _ => none
    | "Ident" => match ← fields.collect? ["name"] with
      | [x] => return .ident (← required? asStr? x) .none
      | _ => none
    | "Member" => match ← fields.collect? ["object", "property"] with
      | [e, p] => return .member (← required? (ofJson? n) e) (← required? asStr? p) .none
      | _ => none
    | "Index" => match ← fields.collect? ["object", "index"] with
      | [e, k] => return .index (← required? (ofJson? n) e) (← required? (ofJson? n) k) .none
      | _ => none
    | "Call" => match ← fields.collect? ["callee", "args"] with
      | [f, es] => return .call (← required? (ofJson? n) f) (← required? (list? (ofJson? n)) es) .none
      | _ => none
    | "Yield" => match ← fields.collect? ["inner"] with
      | [e] => return .yield (← optional? (ofJson? n) e) .none
      | _ => none
    | "BinaryOp" => match ← fields.collect? ["op", "left", "right"] with
      | [op, l, r] =>
        let op ← (← required? (name? .afterwards) op) |> Connective.ofTag?
        return .logic op (← required? (ofJson? n) l) (← required? (ofJson? n) r) .none
      | _ => none
    | _ => none

/-- Reads a path segment. -/
def Segment.ofJson? (depth : Nat) (j : Json) : Option Segment := do
  let (kind, fields) ← node? .afterwards Segment.kinds j
  match kind with
  | "Prop" => match ← fields.collect? ["property"] with
    | [x] => return .property (← required? asStr? x) .none
    | _ => none
  | "Index" => match ← fields.collect? ["expr"] with
    | [e] => return .key (← required? (Expr.ofJson? depth) e) .none
    | _ => none
  | _ => none

/-- Reads a statement of at most the given depth. -/
def Stmt.ofJson? : Nat → Json → Option Stmt
  | 0, _ => none
  | n + 1, j => do
    let (kind, fields) ← node? .afterwards Stmt.kinds j
    match kind with
    | "Block" => match ← fields.collect? ["body"] with
      | [body] => return .block (← required? (list? (ofJson? n)) body) .none
      | _ => none
    | "Declare" => match ← fields.collect? ["name", "init"] with
      | [x, e] => return .declare (← required? asStr? x) (← optional? (Expr.ofJson? n) e) .none
      | _ => none
    | "Assign" => match ← fields.collect? ["var", "path", "value"] with
      | [x, path, e] =>
        return .assign (← required? asStr? x) (← required? (list? (Segment.ofJson? n)) path)
          (← required? (Expr.ofJson? n) e) .none
      | _ => none
    | "If" => match ← fields.collect? ["test", "then_s", "else_s"] with
      | [e, s, t] =>
        return .branch (← required? (Expr.ofJson? n) e) (← required? (ofJson? n) s)
          (← optional? (ofJson? n) t) .none
      | _ => none
    | "While" => match ← fields.collect? ["test", "body"] with
      | [e, s] => return .loop (← required? (Expr.ofJson? n) e) (← required? (ofJson? n) s) .none
      | _ => none
    | "Return" => match ← fields.collect? ["value"] with
      | [e] => return .return (← optional? (Expr.ofJson? n) e) .none
      | _ => none
    | "Try" => match ← fields.collect? ["body", "catch_var", "catch_body"] with
      | [s, x, t] =>
        return .attempt (← required? (ofJson? n) s) (← required? asStr? x)
          (← required? (ofJson? n) t) .none
      | _ => none
    | "Expr" => match ← fields.collect? ["expr"] with
      | [e] => return .expr (← required? (Expr.ofJson? n) e) .none
      | _ => none
    | "Break" => match ← fields.collect? [] with
      | [] => return .break .none
      | _ => none
    | "Continue" => match ← fields.collect? [] with
      | [] => return .continue .none
      | _ => none
    | _ => none

/-- Reads a statement of at most the given depth that is not part of another one.  In passing a copy
of it is made, from which its parts are read; all of it must be usable, and it names its kind. -/
def Stmt.ofWhole? (p : Pace) (depth : Nat) (j : Json) : Option Stmt :=
  match p with
  | .afterwards => Stmt.ofJson? depth j
  | .passing => do
    guard ((node? .passing Stmt.kinds j).isSome && j.isUsable)
    Stmt.ofJson? depth j

end VirtualComputer
