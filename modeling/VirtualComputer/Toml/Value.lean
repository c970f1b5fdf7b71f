import VirtualComputer.Settings.Value

/-!
# Values of TOML texts

The values that a TOML text denotes: scalars, lists and tables.  As a raw setting, a moment is its
text.
-/

namespace VirtualComputer

inductive Toml where
  | str (s : String)
  | int (i : Int)
  | float (x : Float)
  | bool (b : Bool)
  /-- A date, a time of day or both, in its normal form. -/
  | moment (text : String)
  | arr (items : List Toml)
  | table (entries : List (String × Toml))
  deriving Inhabited

namespace Toml

mutual

/-- The raw setting that a value is. -/
def toSetting : Toml → Setting
  | .str s | .moment s => .str s
  | .int i => .int i
  | .float x => .float x
  | .bool b => .bool b
  | .arr items => .list (toSettings items)
  | .table es => .table (toSettingEntries es)

def toSettings : List Toml → List Setting
  | [] => []
  | v :: vs => toSetting v :: toSettings vs

def toSettingEntries : List (String × Toml) → List (String × Setting)
  | [] => []
  | (k, v) :: es => (k, toSetting v) :: toSettingEntries es

end

end Toml

end VirtualComputer
