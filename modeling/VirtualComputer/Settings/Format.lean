import VirtualComputer.Ini
import VirtualComputer.Json.Reader
import VirtualComputer.Json5
import VirtualComputer.Ron
import VirtualComputer.Toml.Document
import VirtualComputer.Yaml.Document

/-!
# Formats of settings files

A settings file is written in one of several formats, which its name tells by what stands after the
last point.
-/

namespace VirtualComputer

namespace Setting

mutual

/-- The raw setting that a value of a data text is.  A whole number that fits no signed word is taken
to the nearest floating one. -/
def ofJson : Json → Setting
  | .null | .unusable => .nothing
  | .bool b => .bool b
  | .int i => if Word.signed64.holds i then .int i else .float (Decimal.ofInt i)
  | .float x => .float x
  | .str s => .str s
  | .arr items => .list (ofJsonItems items)
  | .obj members => .table (Entries.ofList (ofJsonMembers members))

def ofJsonItems : List Json → List Setting
  | [] => []
  | j :: rest => ofJson j :: ofJsonItems rest

def ofJsonMembers : List (String × Json) → List (String × Setting)
  | [] => []
  | (k, j) :: rest => (k, ofJson j) :: ofJsonMembers rest

end

/-- The entries of a value that is a table. -/
def entries? : Setting → Option (List (String × Setting))
  | .table es => some es
  | _ => none

end Setting

namespace Settings

inductive Format where
  | toml
  | json
  | yaml
  | ini
  | ron
  | json5
  deriving DecidableEq, Repr

namespace Format

def all : List Format := [.toml, .json, .yaml, .ini, .ron, .json5]

/-- What the names of files in a format end with, after a point. -/
def extensions : Format → List String
  | .toml => ["toml"]
  | .json => ["json"]
  | .yaml => ["yaml", "yml"]
  | .ini => ["ini"]
  | .ron => ["ron"]
  | .json5 => ["json5"]

/-- The format of files with an extension. -/
def ofExtension? (ext : String) : Option Format :=
  all.find? fun f => f.extensions.contains ext

/-- The entries that a text in a format denotes. -/
def entries? (f : Format) (text : String) : Option (List (String × Setting)) :=
  match f with
  | .toml => (Toml.read? text).map Toml.toSettingEntries
  | .json => (Json.read? text).bind fun j => if j.isUsable then (Setting.ofJson j).entries? else none
  | .yaml => (Yaml.read? text).bind Setting.entries?
  | .ini => Ini.read? text
  | .ron => (Ron.read? text).bind Setting.entries?
  | .json5 => (Json5.read? text).bind Setting.entries?

/-- The entries of a file with a text, which may begin with a byte order mark. -/
def read? (f : Format) (text : String) : Option (List (String × Setting)) :=
  match text.toList with
  | '\uFEFF' :: cs => f.entries? (String.ofList cs)
  | _ => f.entries? text

end Format

end Settings

end VirtualComputer
