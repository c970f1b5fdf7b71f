import VirtualComputer.Decimal.Numeral
import VirtualComputer.Settings.Loose

/-!
# Settings in the environment

Variables whose names begin with `MACHINE_` are settings.  Double underscores in their names stand
for points, and their values for numbers and truth values where they look like such.
-/

namespace VirtualComputer.Settings

/-- Variables of the environment, with their values. -/
abbrev Environment := List (String × String)

namespace Environment

/-- The value of a variable. -/
def get? (name : String) (env : Environment) : Option String :=
  (env.find? (·.1 = name)).map (·.2)

/-- What the names of variables for settings begin with, in letters of either case. -/
def settingPrefix : List Char := "machine_".toList

/-- The text with every double underscore made a point. -/
def pointed : List Char → List Char
  | '_' :: '_' :: cs => '.' :: pointed cs
  | c :: cs => c :: pointed cs
  | [] => []

/-- The value that the text of a variable stands for. -/
def valueOf (s : String) : Setting :=
  if s.toLower = "true" then .bool true
  else if s.toLower = "false" then .bool false
  else match Setting.within? .signed64 s with
    | some i => .int i
    | none =>
      match Decimal.float? s with
      | some x => .float x
      | none => .str s

/-- The setting that a variable stands for, if its name begins as it must. -/
def settingOf? (v : String × String) : Option (String × Setting) :=
  let name := (Setting.lower v.1).toList
  if settingPrefix.isPrefixOf name then
    some (String.ofList (pointed (name.drop settingPrefix.length)), valueOf v.2)
  else none

/-- The settings that variables stand for. -/
def settings (env : Environment) : Entries Setting :=
  Entries.ofList (env.filterMap settingOf?)

end Environment

end VirtualComputer.Settings
