import VirtualComputer.CommandLine.Arguments
import VirtualComputer.CommandLine.Console
import VirtualComputer.CommandLine.SignalArgument
import VirtualComputer.Json.Layout
import VirtualComputer.Machine.Save
import VirtualComputer.Settings.Search
import VirtualComputer.Settings.Text
import VirtualComputer.Settings.Variables

/-!
# Sessions

A session is what an invocation does, given the files that it reads: the lines that it writes, in
their order, the file that it leaves, and the failure that it ends with.
-/

namespace VirtualComputer.CommandLine

/-! ## What a session does -/

/-- One thing that a session does. -/
inductive Act where
  /-- Writes a line. -/
  | line (text : String)
  /-- Writes a line to the side, where displays are shown. -/
  | aside (text : String)
  /-- Passes on what a program has printed. -/
  | printed (text : String)
  /-- Writes a file.  What follows is done only if that succeeds. -/
  | file (path text : String)
  deriving DecidableEq, Repr

/-- Why a session fails. -/
inductive SessionError where
  | settings (e : Settings.LoadError)
  | unreadable (path : String)
  | unwritable (path : String)
  | syntaxError (path : String) (e : ParseError)
  | invalid (path : String) (errors : Nat)
  | signal (u : UnnamedSignal)
  | start (reason : Option String)
  | save (f : Failure)
  | settingsText

/-- The text of an error. -/
def SessionError.message : SessionError → String
  | .settings e => e.message
  | .unreadable path => "Failed to read " ++ path
  | .unwritable path => "Failed to write " ++ path
  | .syntaxError path e => path ++ ": " ++ e.message
  | .invalid path n => Decimal.integerText n ++ " error(s) in " ++ path
  | .signal u => u.message
  | .start reason => "Machine failed to start: " ++ reason.getD "unknown error"
  | .save f => f.message
  | .settingsText => "Failed to render configuration"

structure Session where
  acts : List Act
  error : Option SessionError

namespace Session

/-- A session that ends well. -/
def ok (acts : List Act) : Session := ⟨acts, none⟩

/-- A session that does nothing but fail. -/
def fail (e : SessionError) : Session := ⟨[], some e⟩

/-- Does some things before a session. -/
def after (acts : List Act) (s : Session) : Session :=
  { s with acts := acts ++ s.acts }

/-! ## Checking -/

/-- The text of a file, if it can be read. -/
def readFile (files : Settings.Files) (path : String) : Except SessionError String :=
  match files path with
  | some text => .ok text
  | none => .error (.unreadable path)

/-- Checks a program. -/
def check (files : Settings.Files) (path : String) : Session :=
  match readFile files path with
  | .error e => fail e
  | .ok source =>
    match Grammar.parse source with
    | .error e => fail (.syntaxError path e)
    | .ok program =>
      let problems := program.problems
      let lines := problems.map fun p => Act.line (path ++ ": " ++ p.text)
      match problems.countP Problem.isError with
      | 0 => ok (lines ++ [.line ("✓ " ++ path ++ " is valid")])
      | n => after lines (fail (.invalid path n))

/-! ## Running -/

/-- A number with blanks in front, at least two columns wide. -/
def column (n : Nat) : String :=
  let digits := Decimal.toDigits n
  String.ofList (List.replicate (2 - digits.length) ' ' ++ digits)

/-- What is seen of an event on the console. -/
def actOf? : Event → Option Act
  | .printed text => some (.printed text)
  | .displayed _ (.line row text) => some (.aside ("[screen " ++ column row ++ "] " ++ text))
  | _ => none

/-- Runs a kernel for some ticks.  The run does some things, and ends with the machine or an
error. -/
def drive (site : Site Console) (files : Settings.Files) (kernel : String) (ticks : Nat)
    (signals : List String) : List Act × Except SessionError (Machine Console) :=
  match readFile files kernel, signals.mapM Signal.ofArgument with
  | .error e, _ => ([], .error e)
  | .ok _, .error u => ([], .error (.signal u))
  | .ok source, .ok signals =>
    let pool := Console.pool site { Catalog.standard with kernel := source }
    let (started, pool) := pool.operate 0 Machine.start
    let pool := if started = some true then Console.drive signals ticks pool else pool
    let acts := pool.told.filterMap fun (_, e) => actOf? e
    match pool.machines with
    | (_, m) :: _ => (acts, if started = some true then .ok m else .error (.start m.message))
    | [] => (acts, .error (.start none))

/-- Milliseconds with three places. -/
def millis (nanoseconds : Int) : String :=
  let thousandths := (nanoseconds.natAbs + 500) / 1000
  let places := Decimal.toDigits (thousandths % 1000)
  (if nanoseconds < 0 then "-" else "") ++ Decimal.integerText (thousandths / 1000) ++ "." ++
    String.ofList (List.replicate (3 - places.length) '0' ++ places)

/-- What is said about a machine after a run. -/
def report (m : Machine Console) : List Act :=
  [.line ("State: " ++ m.state.name),
    .line ("Kernel memory: " ++ Decimal.integerText m.ledger.kernelMemory ++ " bytes"),
    .line ("CPU time: " ++ millis m.ledger.cpuTime ++ " ms")] ++
  m.message.toList.map fun text => .line ("Message: " ++ text)

/-- Runs a kernel and reports on its machine. -/
def run (site : Site Console) (files : Settings.Files) (kernel : String) (ticks : Nat)
    (signals : List String) : Session :=
  let (acts, r) := drive site files kernel ticks signals
  after acts <| match r with
    | .error e => fail e
    | .ok m => ok (report m)

/-- Runs a kernel and writes the record of its machine. -/
def snapshot (site : Site Console) (files : Settings.Files) (kernel : String) (ticks : Nat)
    (signals : List String) (out : String) : Session :=
  let (acts, r) := drive site files kernel ticks signals
  after acts <| match r with
    | .error e => fail e
    | .ok m =>
      match m.save with
      | (.error f, _) => fail (.save f)
      | (.ok r, m) => ok [
          .file out r.toJson.layout,
          .line ("✓ Saved " ++ m.state.name ++ " machine to " ++ out)]

/-! ## Showing settings -/

/-- Shows the settings. -/
def config (s : Settings) : Session :=
  match s.lines? with
  | none => fail .settingsText
  | some lines => ok (lines.map .line)

end Session

/-! ## Invocations -/

/-- The surroundings of a session. -/
structure Surroundings where
  files : Settings.Files
  environment : Settings.Environment
  processors : Nat
  /-- The address of the machine. -/
  address : String
  /-- A bound on the steps of one resume. -/
  steps : Nat

/-- Does what a command says. -/
def Command.session (w : Surroundings) (s : Settings) : Command → Session
  | .run kernel ticks signals =>
    .run (Console.site w.address s.machine w.steps) w.files kernel ticks signals
  | .check file => .check w.files file
  | .snapshot kernel ticks signals out =>
    .snapshot (Console.site w.address s.machine w.steps) w.files kernel ticks signals out
  | .config => .config s

/-- The variables of the environment and those of a file of variables. -/
def Surroundings.fullEnvironment (w : Surroundings) : Settings.Environment :=
  w.environment.withFile (Settings.Variables.paths.findSome? w.files)

/-- Does what an invocation says.  Settings that cannot be loaded come before anything else. -/
def Invocation.session (w : Surroundings) (i : Invocation) : Session :=
  let env := w.fullEnvironment
  let file := Settings.findFile w.files (Settings.filePath i.config env)
  match Settings.load (.standard w.processors) file env .none with
  | .error e => .fail (.settings e)
  | .ok s => i.command.session w s

/-- The paths of the files that a command reads. -/
def Command.reads : Command → List String
  | .run kernel .. | .snapshot kernel .. => [kernel]
  | .check file => [file]
  | .config => []

/-- The paths of the files that an invocation may read, apart from files of variables. -/
def Invocation.reads (env : Settings.Environment) (i : Invocation) : List String :=
  Settings.candidates ((Settings.filePath i.config env).getD Settings.standardPath) ++
    i.command.reads

end VirtualComputer.CommandLine
