import VirtualComputer.CommandLine.Session

/-!
# The program

Carries out the session that the arguments denote: reads the files it may need, does what the
session says, and reports how it ended.
-/

namespace VirtualComputer

/-- The text of a file, if it can be read. -/
def readText? (path : String) : IO (Option String) :=
  tryCatch (some <$> IO.FS.readFile path) fun _ => pure none

/-- The files at some paths. -/
def readFiles (paths : List String) : IO Settings.Files := do
  let texts ← paths.mapM readText?
  let found := paths.zip texts
  return fun path => (found.find? (·.1 = path)).bind (·.2)

/-- The variables of the environment. -/
def environment : IO Settings.Environment := do
  let text := (← readText? "/proc/self/environ").getD ""
  return (Text.splitOn (Char.ofNat 0) text.toList).filterMap fun entry =>
    (Text.cut? '=' entry).map fun (name, value) => (String.ofList name, String.ofList value)

/-- The number of processors, at least one. -/
def processors : IO Nat := do
  let text := (← readText? "/proc/cpuinfo").getD ""
  return max 1 ((Text.split '\n' text).countP fun line => line.startsWith "processor")

/-- An address that no other machine has. -/
def freshAddress : IO String := do
  let digits (n : Nat) : IO String :=
    return String.ofList (← (List.replicate n ()).mapM fun _ => return Nat.digitChar (← IO.rand 0 15))
  let variant := Nat.digitChar (← IO.rand 8 11)
  return (← digits 8) ++ "-" ++ (← digits 4) ++ "-4" ++ (← digits 3) ++ "-" ++
    (String.ofList [variant] ++ (← digits 3)) ++ "-" ++ (← digits 12)

/-- A bound on the steps of one resume, which a kernel that yields never comes near. -/
def stepBound : Nat := 1000000000000000

/-- Does one thing; whether a session can go on after it. -/
def perform (act : CommandLine.Act) : IO (Except CommandLine.SessionError Unit) := do
  match act with
  | .line text => IO.println text; return .ok ()
  | .aside text => IO.eprintln text; return .ok ()
  | .printed text => IO.println text; return .ok ()
  | .file path text =>
    tryCatch (do IO.FS.writeFile path text; return .ok ()) fun _ =>
      return .error (.unwritable path)

/-- Carries out a session. -/
def carryOut (s : CommandLine.Session) : IO (Option CommandLine.SessionError) := do
  for act in s.acts do
    match ← perform act with
    | .ok () => pure ()
    | .error e => return some e
  return s.error

end VirtualComputer

open VirtualComputer in
/-- Runs the program; the exit code is zero if it ends well. -/
def main (args : List String) : IO UInt32 := do
  match CommandLine.read args with
  | .error .helpWanted => IO.println (CommandLine.Usage.message .helpWanted); return 0
  | .error usage => IO.eprintln ("error: " ++ usage.message); return 2
  | .ok invocation =>
    let surroundings : CommandLine.Surroundings := {
      files := ← readFiles Settings.Variables.paths
      environment := ← environment
      processors := ← processors
      address := ← freshAddress
      steps := stepBound }
    let files ← readFiles (invocation.reads surroundings.fullEnvironment)
    let surroundings := { surroundings with
      files := fun path => (surroundings.files path).or (files path) }
    match ← carryOut (invocation.session surroundings) with
    | none => return 0
    | some e => IO.eprintln ("Error: " ++ e.message); return 1
