import VirtualComputer.Guest.Scalar
import VirtualComputer.Text.Split

/-!
# Signals on the command line

A signal is given as `name:arg,…`.  The words `true`, `false` and `nil` and all numerals stand for
the values that they name, and anything else for itself.
-/

namespace VirtualComputer

namespace Scalar

/-- The scalar that a word on the command line stands for. -/
def ofWord (word : String) : Scalar :=
  if word = "true" then .bool true
  else if word = "false" then .bool false
  else if word = "nil" then .nothing
  else match Decimal.float? word with
    | some x => .number x
    | none => .str word

end Scalar

/-- An argument that gives no name for a signal. -/
structure UnnamedSignal where
  arg : String

/-- The text about an argument without a name. -/
def UnnamedSignal.message (u : UnnamedSignal) : String :=
  "Signal name missing in '" ++ u.arg ++ "'"

namespace Signal

/-- The signal that an argument denotes. -/
def ofArgument (arg : String) : Except UnnamedSignal Signal :=
  let (name, args) : String × List Scalar := match Text.cut? ':' arg.toList with
    | none => (arg, [])
    | some (name, rest) =>
      (String.ofList name, (Text.split ',' (String.ofList rest)).map Scalar.ofWord)
  if name = "" then .error ⟨arg⟩ else .ok ⟨name, args⟩

end Signal

end VirtualComputer
