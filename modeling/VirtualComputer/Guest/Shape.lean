import VirtualComputer.Guest.Native
import VirtualComputer.Json.Shape

/-!
# Shapes of guest values

What the stored form of a value has to look like, for the text that a guest is given when it asks
to restore something else.
-/

namespace VirtualComputer

open Json

/-- What is stored of guests. -/
inductive Stored where
  | value
  | bound
  | error
  | thread
  | frame
  | binding
  | control
  | statement
  | segment
  | expression
  deriving DecidableEq, Repr

namespace Stored

/-- The shape of a list of stored things. -/
def listOf (s : Stored) : Shape Stored := .list (.form s)

/-- The shape of something stored that may be absent. -/
def optional (s : Stored) : Shape Stored := .option (.form s)

/-- The names of natives. -/
def natives : Shape Stored := .choice (Native.all.map Native.tag)

/-- The kinds of stored values. -/
def valueKinds : List (String × Option (Shape Stored)) := [
  ("Null", none), ("Bool", some .flag), ("Num", some .real), ("Str", some .text),
  ("List", some (listOf .value)), ("Obj", some (.table (.form .value))),
  ("Native", some natives), ("Bound", some (.form .bound)), ("Thread", some (.form .thread)),
  ("Error", some (.form .error))]

/-- The kinds of stored frames. -/
def frameKinds : List (String × FieldShapes Stored) := [
  ("Block", [("idx", .count)]), ("Declare", []), ("Assign", []), ("If", []),
  ("While", [("phase", .choice ["Test"])]), ("Return", []),
  ("Try", [("phase", .choice ["Start", "ExecuteTry", "ExecuteCatch"])]), ("Expr", []),
  ("Break", []), ("Continue", [])]

/-- The kinds of stored statements. -/
def statementKinds : List (String × FieldShapes Stored) := [
  ("Block", [("body", listOf .statement)]),
  ("Declare", [("name", .text), ("init", optional .expression)]),
  ("Assign", [("var", .text), ("path", listOf .segment), ("value", .form .expression)]),
  ("If", [("test", .form .expression), ("then_s", .form .statement),
    ("else_s", optional .statement)]),
  ("While", [("test", .form .expression), ("body", .form .statement)]),
  ("Return", [("value", optional .expression)]),
  ("Try", [("body", .form .statement), ("catch_var", .text), ("catch_body", .form .statement)]),
  ("Expr", [("expr", .form .expression)]),
  ("Break", []),
  ("Continue", [])]

/-- The kinds of stored expressions. -/
def expressionKinds : List (String × FieldShapes Stored) := [
  ("LitBool", [("v", .flag)]),
  ("LitNum", [("v", .real)]),
  ("LitStr", [("v", .text)]),
  ("LitNull", []),
  ("LitList", [("elements", listOf .expression)]),
  ("LitObj", [("properties", .list (.pair .text (.form .expression)))]),
  ("Ident", [("name", .text)]),
  ("Member", [("object", .form .expression), ("property", .text)]),
  ("Index", [("object", .form .expression), ("index", .form .expression)]),
  ("Call", [("callee", .form .expression), ("args", listOf .expression)]),
  ("Yield", [("inner", optional .expression)]),
  ("BinaryOp", [("op", .choice ["And", "Or"]), ("left", .form .expression),
    ("right", .form .expression)])]

/-- What is stored under each name. -/
def form : Stored → Form Stored
  | .value => .content "Val" valueKinds
  | .bound => .record "BoundCall" [("native", natives), ("args", listOf .value)]
  | .error => .record "ErrorInfo" [("code", .text), ("message", .text)]
  | .thread => .record "Coroutine" [
      ("frames", listOf .frame), ("env", listOf .binding), ("control", .form .control),
      ("resume_value", optional .value),
      ("status", .choice ["Fresh", "Suspended", "Running", "Dead"]), ("protected", .flag)]
  | .frame => .recordNode "Frame" [("scope_base_sp", .count), ("node", .form .statement)]
      "FrameKind" frameKinds
  | .binding => .record "Binding" [("name", .text), ("value", .form .value)]
  | .control => .content "Control" [
      ("None", none), ("Break", none), ("Continue", none), ("Return", some (.form .value)),
      ("Throw", some (.form .value)), ("Suspend", some (.form .value))]
  | .statement => .node "Stmt" statementKinds
  | .segment => .node "MemberAccess" [("Prop", [("property", .text)]),
      ("Index", [("expr", .form .expression)])]
  | .expression => .node "Expr" expressionKinds

/-- What is wrong with a text that stores no value. -/
def complaint (text : String) : String :=
  match Shape.complaint? form (.form .value) text with
  | some c => c.message
  | none => "not a stored value"

end Stored

end VirtualComputer
