import VirtualComputer.Text.Wrap

/-!
# Displays

A display is a surface with rows of text.  A message is shown by clearing the surface and setting
its rows from the top.
-/

namespace VirtualComputer

/-- What can be asked of a display. -/
inductive DisplayCall where
  | clear
  | line (row : Nat) (text : String)
  deriving DecidableEq, Repr

/-- The calls that show a message on a display of a width. -/
def DisplayCall.render (width : Nat) (message : String) : List DisplayCall :=
  .clear :: (Text.wrap message width).mapIdx .line

end VirtualComputer
