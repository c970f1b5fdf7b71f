import VirtualComputer.Settings.Environment
import VirtualComputer.Text.Blank

/-!
# Files of variables

A file of variables gives values to variables that have none.  Each of its lines holds a name, an
equals sign and a value, in which quotes, backslashes and dollar signs have a meaning; quoted values
may run over several lines.  The first line that is wrong ends the file.
-/

namespace VirtualComputer.Settings.Variables

/-! ## Lines -/

/-- What the characters of a line before a place say about the next one. -/
inductive LineState where
  | plain
  /-- After a blank that no other blank precedes. -/
  | blank
  | escaped
  /-- In quotes of a kind, perhaps after a backslash. -/
  | quoted (quote : Char) (escaped : Bool)

/-- The state after a character. -/
def LineState.next (c : Char) : LineState → LineState
  | .escaped => .plain
  | .quoted q true => .quoted q false
  | .quoted q false => if c = '\\' then .quoted q true else if c = q then .plain else .quoted q false
  | s =>
    if c = '\\' then .escaped
    else if c = '"' ∨ c = '\'' then .quoted c false
    else match s with
      | .plain => if Text.isBlank c && c ≠ '\n' && c ≠ '\r' then .blank else .plain
      | _ => .plain

/-- Whether a line may end in a state. -/
def LineState.mayEnd : LineState → Bool
  | .plain => true
  | _ => false

/-- What follows the next end of a line. -/
def afterLine (cs : List Char) : List Char :=
  (cs.dropWhile (· ≠ '\n')).drop 1

/-- The rest of a line, up to a comment, and what follows it. -/
def lineRest? (s : LineState) : List Char → Option (List Char × List Char)
  | [] => if s.mayEnd then some ([], []) else none
  | c :: cs =>
    match s, c with
    | .blank, '#' => some ([], afterLine cs)
    | _, _ =>
      let s := s.next c
      if c = '\n' ∧ s.mayEnd then some ([], cs)
      else (lineRest? s cs).map fun (line, rest) => (c :: line, rest)

/-- The line at the start of a text, and what follows it.  A comment is an empty line. -/
def line? (cs : List Char) : Option (List Char × List Char) :=
  if ((cs.takeWhile (· ≠ '\n')).dropWhile Text.isBlank).head? = some '#' then some ([], afterLine cs)
  else lineRest? .plain cs

/-! ## Values -/

/-- What the characters of a value before a place say about the next one. -/
inductive ValueState where
  /-- In double quotes or outside of quotes. -/
  | plain (inQuotes : Bool)
  | escaped (inQuotes : Bool)
  | singleQuoted
  /-- In the name of a variable after a dollar sign, perhaps in braces. -/
  | name (inQuotes inBraces : Bool) (cs : List Char)
  /-- After the value. -/
  | ended

/-- The text of a value, in which names stand for the texts of variables. -/
def value? (lookup : List Char → List Char) (s : ValueState) : List Char → Option (List Char)
  | [] => match s with
    | .plain false | .escaped false | .ended => some []
    | .name false false name => some (lookup name)
    | _ => none
  | c :: cs =>
    match s with
    | .ended =>
      if c = ' ' ∨ c = '\t' then value? lookup .ended cs else if c = '#' then some [] else none
    | .escaped q =>
      if c = 'n' then (value? lookup (.plain q) cs).map ('\n' :: ·)
      else if "\\'\"$ ".toList.contains c then (value? lookup (.plain q) cs).map (c :: ·)
      else none
    | .singleQuoted =>
      if c = '\'' then value? lookup (.plain false) cs
      else (value? lookup .singleQuoted cs).map (c :: ·)
    | .name q braces name =>
      if c.isAlphanum then value? lookup (.name q braces (name ++ [c])) cs
      else if braces then
        if c = '}' then (value? lookup (.plain q) cs).map (lookup name ++ ·)
        else value? lookup (.name q braces (name ++ [c])) cs
      else if c = '{' ∧ name.isEmpty then value? lookup (.name q true []) cs
      else if c = '$' then (value? lookup (.name q false []) cs).map (lookup name ++ ·)
      else (value? lookup (.plain q) cs).map fun text => lookup name ++ c :: text
    | .plain q =>
      if c = '$' then value? lookup (.name q false []) cs
      else if c = '\\' then value? lookup (.escaped q) cs
      else if c = '"' then value? lookup (.plain !q) cs
      else if c = '\'' ∧ !q then value? lookup .singleQuoted cs
      else if (c = ' ' ∨ c = '\t') ∧ !q then value? lookup .ended cs
      else (value? lookup (.plain q) cs).map (c :: ·)

/-! ## Assignments -/

/-- A name at the start of a text, and what follows it after blanks. -/
def name? (cs : List Char) : Option (List Char × List Char) :=
  let isNameChar (c : Char) : Bool := c.isAlphanum || c = '_' || c = '.'
  if cs.head?.any fun c => c.isAlpha || c = '_' then
    some (cs.takeWhile isNameChar, (cs.dropWhile isNameChar).dropWhile Text.isBlank)
  else none

/-- What follows an equals sign and blanks. -/
def afterEquals? : List Char → Option (List Char)
  | '=' :: cs => some (cs.dropWhile Text.isBlank)
  | _ => none

/-- The name and the value on a line, which may begin with the word `export`. -/
def assigned? (cs : List Char) : Option (List Char × List Char) := do
  let (name, rest) ← name? cs
  match afterEquals? rest with
  | some value => return (name, value)
  | none =>
    guard (name = "export".toList)
    let (name, rest) ← name? rest
    return (name, ← afterEquals? rest)

/-- What variables stand for in values: those of the environment count over those of the file. -/
def lookup (env file : Environment) (name : List Char) : List Char :=
  (((env.get? (String.ofList name)).or (file.get? (String.ofList name))).getD "").toList

/-- The environment with the variables that at most so many lines give; `file` holds what lines
before have given. -/
def extend : Nat → (env file : Environment) → List Char → Environment
  | 0, env, _, _ | _, env, _, [] => env
  | n + 1, env, file, cs =>
    match line? cs with
    | none => env
    | some (line, rest) =>
      let line := Text.trim line
      if line.isEmpty ∨ line.head? = some '#' then extend n env file rest
      else
        let assignment := do
          let (name, cs) ← assigned? line
          let value ← if cs.head? = some '#' then some []
            else value? (lookup env file) (.plain false) cs
          return (String.ofList name, String.ofList value)
        match assignment with
        | none => env
        | some (name, value) =>
          let env := if (env.get? name).isSome then env else env ++ [(name, value)]
          extend n env ((name, value) :: file) rest

/-- How far up from the working directory a file of variables is looked for. -/
def heightLimit : Nat := 64

/-- Where a file of variables is looked for. -/
def paths : List String :=
  (List.range heightLimit).map fun n => String.join (List.replicate n "../") ++ ".env"

end Variables

/-- The environment with the variables of a file, which may begin with a byte order mark. -/
def Environment.withFile (env : Environment) (text : Option String) : Environment :=
  match text.map String.toList with
  | none => env
  | some ('\uFEFF' :: cs) | some cs => Variables.extend (cs.length + 1) env [] cs

end VirtualComputer.Settings
