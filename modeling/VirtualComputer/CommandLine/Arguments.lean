import VirtualComputer.Decimal.Numeral
import VirtualComputer.Text.Split
import VirtualComputer.Word

/-!
# Arguments

The arguments of the command line denote an invocation: a command with its parameters, and where
the settings are.  An option takes its value from its own argument or from the next one; after
`--` every argument is a positional one.  The value of an option is looked at only when the next
option or positional argument is complete, so that an argument of which nothing is known is
reported before a value that is wrong.
-/

namespace VirtualComputer.CommandLine

/-! ## Invocations -/

/-- What the command line can do. -/
inductive Command where
  /-- Runs a kernel for a number of ticks. -/
  | run (kernel : String) (ticks : Nat) (signals : List String)
  /-- Checks a program. -/
  | check (file : String)
  /-- Runs a kernel and writes the record of its machine. -/
  | snapshot (kernel : String) (ticks : Nat) (signals : List String) (out : String)
  /-- Shows the settings. -/
  | config
  deriving DecidableEq, Repr

structure Invocation where
  /-- The path of the settings file, if one is given. -/
  config : Option String
  command : Command
  deriving DecidableEq, Repr

/-- Why arguments denote no invocation. -/
inductive Usage where
  | helpWanted
  | nothingGiven
  | noCommand
  | unknownCommand
  | unknownArgument
  | missingArgument
  | missingValue
  | badValue
  /-- A value for an option that takes none. -/
  | excessValue
  | repeatedOption
  deriving DecidableEq, Repr

/-- What is said about arguments that denote no invocation. -/
def Usage.message : Usage → String
  | .helpWanted | .nothingGiven => "usage: machine [--config FILE] <run|check|snapshot|config> …"
  | .noCommand => "a command is required"
  | .unknownCommand => "unknown command"
  | .unknownArgument => "unexpected argument"
  | .missingArgument => "a required argument is missing"
  | .missingValue => "an option needs a value"
  | .badValue => "an option has an invalid value"
  | .excessValue => "an option takes no value"
  | .repeatedOption => "an option is given twice"

/-! ## Parameters -/

inductive CommandName where
  | run
  | check
  | snapshot
  | config
  deriving DecidableEq, Repr

/-- The command of a name. -/
def CommandName.ofWord? : String → Option CommandName
  | "run" => some .run
  | "check" => some .check
  | "snapshot" => some .snapshot
  | "config" => some .config
  | _ => none

/-- Where an argument stands: before the command, or among the parameters of one. -/
abbrev Scope := Option CommandName

inductive Parameter where
  | config
  | ticks
  | signal
  | out
  /-- The path of a program, the only positional parameter. -/
  | program
  deriving DecidableEq, Repr

/-- The options of a scope by their long names. -/
def longOption? (scope : Scope) (name : String) : Option Parameter :=
  let drives := scope = some .run ∨ scope = some .snapshot
  match name with
  | "config" => some .config
  | "ticks" => if drives then some .ticks else none
  | "signal" => if drives then some .signal else none
  | "out" => if scope = some .snapshot then some .out else none
  | _ => none

/-- The options of a scope by their short names. -/
def shortOption? (scope : Scope) : Char → Option Parameter
  | 't' => longOption? scope "ticks"
  | 's' => longOption? scope "signal"
  | 'o' => longOption? scope "out"
  | _ => none

/-- The positional parameters of a scope. -/
def positionals : Scope → List Parameter
  | some .run | some .check | some .snapshot => [.program]
  | some .config | none => []

/-! ## Values -/

/-- The values of parameters. -/
structure Given where
  config : Option String
  ticks : Option Nat
  signals : List String
  out : Option String
  program : Option String

def Given.nothing : Given := ⟨none, none, [], none, none⟩

/-- The number of ticks if none is given. -/
def standardTicks : Nat := 100

/-- A parameter that may be given once. -/
def once {α : Type} (old : Option α) (new : Except Usage α) : Except Usage (Option α) :=
  if old.isSome then .error .repeatedOption else new.map some

/-- A path is a text that is not empty. -/
def pathOf (s : String) : Except Usage String :=
  if s = "" then .error .missingValue else .ok s

/-- A number of at most 64 bits, without a minus sign. -/
def countOf (s : String) : Except Usage Nat :=
  match Decimal.integer? s with
  | some i => if s.startsWith "-" ∨ !Word.unsigned64.holds i then .error .badValue else .ok i.toNat
  | none => .error .badValue

/-- Takes the value of a parameter. -/
def Given.put (p : Parameter) (s : String) (g : Given) : Except Usage Given := do
  match p with
  | .config => return { g with config := ← once g.config (pathOf s) }
  | .ticks => return { g with ticks := ← once g.ticks (countOf s) }
  | .signal => return { g with signals := g.signals ++ [s] }
  | .out => return { g with out := ← once g.out (pathOf s) }
  | .program => return { g with program := ← once g.program (pathOf s) }

/-! ## Reading -/

/-- How far the arguments of a scope have been read. -/
structure Reading where
  given : Given
  /-- The latest parameter and its value, which have not been looked at yet. -/
  pending : Option (Parameter × Option String)
  /-- Whether `--` has ended the options. -/
  ended : Bool
  /-- The number of positional arguments. -/
  count : Nat

def Reading.start : Reading := ⟨.nothing, none, false, 0⟩

namespace Reading

/-- Looks at the pending parameter. -/
def resolve (r : Reading) : Except Usage Reading :=
  match r.pending with
  | none => .ok r
  | some (_, none) => .error .missingValue
  | some (p, some s) => (r.given.put p s).map fun given => { r with given, pending := none }

/-- The option that waits for its value. -/
def awaiting? (r : Reading) : Option Parameter :=
  match r.pending with
  | some (p, none) => some p
  | _ => none

/-- Reads an option, whose value may be attached to it. -/
def option (p : Parameter) (attached : Option String) (r : Reading) : Except Usage Reading := do
  let r ← r.resolve
  match attached with
  | some s => return { r with given := ← r.given.put p s }
  | none => return { r with pending := some (p, none) }

/-- Reads a positional argument. -/
def positional (scope : Scope) (s : String) (r : Reading) : Except Usage Reading :=
  match (positionals scope)[r.count]? with
  | some p => r.resolve.map fun r => { r with pending := some (p, some s), count := r.count + 1 }
  | none =>
    let isCommand := s = "help" ∨ (CommandName.ofWord? s).isSome
    .error (if scope.isSome ∨ (r.ended ∧ isCommand) then .unknownArgument else .unknownCommand)

/-- Shows help, unless the pending parameter is wrong. -/
def help (r : Reading) : Except Usage Reading :=
  r.resolve.bind fun _ => .error .helpWanted

/-- Reads an option by its long name. -/
def long (scope : Scope) (cs : List Char) (r : Reading) : Except Usage Reading :=
  let (name, attached) : List Char × Option String := match Text.cut? '=' cs with
    | some (name, value) => (name, some (String.ofList value))
    | none => (cs, none)
  let name := String.ofList name
  if name = "help" then if attached.isSome then .error .excessValue else r.help
  else match longOption? scope name with
    | some p => r.option p attached
    | none => .error .unknownArgument

/-- Reads an option by its short name, which the value follows at once or after an equals sign. -/
def short (scope : Scope) (c : Char) (cs : List Char) (r : Reading) : Except Usage Reading :=
  if c = 'h' then r.help
  else match shortOption? scope c with
    | none => .error .unknownArgument
    | some p => r.option p <| match cs with
      | [] => none
      | '=' :: value => some (String.ofList value)
      | value => some (String.ofList value)

/-- Reads one argument. -/
def take (scope : Scope) (r : Reading) (s : String) : Except Usage Reading :=
  if r.ended then r.positional scope s
  else match s.toList with
    | ['-', '-'] => .ok { r with ended := true }
    | '-' :: '-' :: cs => r.long scope cs
    | '-' :: c :: cs => r.short scope c cs
    | _ => match r.awaiting? with
      | some p => .ok { r with pending := some (p, some s) }
      | none => r.positional scope s

end Reading

/-! ## Commands -/

/-- A parameter that has to be given. -/
def required {α : Type} (a : Option α) : Except Usage α :=
  match a with
  | some a => .ok a
  | none => .error .missingArgument

/-- The command with the parameters that are given. -/
def CommandName.withGiven (g : Given) : CommandName → Except Usage Command
  | .run => return .run (← required g.program) (g.ticks.getD standardTicks) g.signals
  | .check => return .check (← required g.program)
  | .snapshot =>
    return .snapshot (← required g.program) (g.ticks.getD standardTicks) g.signals (← required g.out)
  | .config => return .config

/-- Reads the arguments after the name of a command, and the path of the settings among them. -/
def readCommand (name : CommandName) (args : List String) :
    Except Usage (Command × Option String) := do
  let r ← args.foldlM (Reading.take (some name)) .start
  let r ← r.resolve
  return (← name.withGiven r.given, r.given.config)

/-- Help on the command line or on one command. -/
def helpOn (args : List String) : Usage :=
  match args with
  | [] => .helpWanted
  | [s] => if s = "help" ∨ (CommandName.ofWord? s).isSome then .helpWanted else .unknownCommand
  | _ => .unknownCommand

/-- Reads arguments up to the name of a command, and those after it. -/
def readFrom (r : Reading) : List String → Except Usage Invocation
  | [] => do
    let r ← r.resolve
    throw (if r.given.config.isSome then .noCommand else .nothingGiven)
  | s :: args => do
    if r.ended ∨ r.awaiting?.isSome then readFrom (← r.take none s) args
    else if s = "help" then throw (helpOn args)
    else match CommandName.ofWord? s with
      | none => readFrom (← r.take none s) args
      | some name =>
        let (command, config) ← readCommand name args
        let r ← r.resolve
        return ⟨config.or r.given.config, command⟩

/-- The invocation that arguments denote. -/
def read (args : List String) : Except Usage Invocation :=
  readFrom .start args

end VirtualComputer.CommandLine
