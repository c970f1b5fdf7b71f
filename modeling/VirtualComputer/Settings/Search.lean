import VirtualComputer.Settings.Load
import VirtualComputer.Text.Split

/-!
# Finding the settings file

The file at a given path counts, if its name ends as that of a settings file; if there is no such
file, one whose name is longer by such an ending.  Without a path there may be a `machine.toml`, and
a missing one is no error.
-/

namespace VirtualComputer.Settings

/-- The texts of files by their paths. -/
abbrev Files := String → Option String

/-- Where the settings file is if nobody says. -/
def standardPath : String := "machine.toml"

/-- The steps of a path, without those at its end that stay where they are. -/
def pathSteps (path : String) : List (List Char) :=
  ((Text.splitOn '/' path.toList).reverse.dropWhile fun step => step.isEmpty || step = ['.']).reverse

/-- The name of the file at a path, unless the path ends with a step back. -/
def fileName? (path : String) : Option (List Char) :=
  (pathSteps path).getLast?.filter (· ≠ ['.', '.'])

/-- What stands after the last point of a name that does not begin with it. -/
def extension? (name : List Char) : Option String :=
  let ext := (name.reverse.takeWhile (· ≠ '.')).reverse
  if ext.length + 1 < name.length then some (String.ofList ext) else none

/-- The format of the file at a path, which its name tells. -/
def formatOf? (path : String) : Option Format :=
  ((fileName? path).bind extension?).bind Format.ofExtension?

/-- The paths whose names are longer by the ending of a settings file. -/
def longerPaths (path : String) : List (Format × String) :=
  match fileName? path with
  | none => []
  | some _ =>
    let path := String.ofList (Text.joinWith '/' (pathSteps path))
    Format.all.flatMap fun f => f.extensions.map fun ext => (f, path ++ "." ++ ext)

/-- The paths at which a settings file is looked for. -/
def candidates (path : String) : List String :=
  path :: (longerPaths path).map (·.2)

/-- What there is at a path or at a longer one. -/
def fileAt (files : Files) (path : String) : Option File :=
  match files path with
  | some text => some ((formatOf? path).elim .missing fun f => .found f text)
  | none => (longerPaths path).findSome? fun (f, path) => (files path).map (.found f)

/-- The settings file, at a given path or at the standard one. -/
def findFile (files : Files) (path : Option String) : File :=
  match path with
  | some path => (fileAt files path).getD .missing
  | none => (fileAt files standardPath).getD .absent

end VirtualComputer.Settings
