/-!
# Switches

What the words of a command line can set.

* `Switch`: the switches, with their long names and their letters.
* `Word.of`: the form of a word.
* `Settings.set`: what a switch with its value changes.
-/

set_option autoImplicit false

namespace RpcCatalog.CommandLine

/-- How a catalog is written. -/
inductive OutputFormat where
  | text
  | json
  deriving DecidableEq, Repr

def OutputFormat.ofName? (name : String) : Option OutputFormat :=
  if name = "text" then some .text else if name = "json" then some .json else none

/-- A switch of the command line. -/
inductive Switch where
  | help
  | version
  | verbose
  | directory
  | importPath
  | configuration
  | lenient
  | output
  deriving DecidableEq, Repr

namespace Switch

def name : Switch → String
  | help => "help"
  | version => "version"
  | verbose => "verbose"
  | directory => "dir"
  | importPath => "import-path"
  | configuration => "config"
  | lenient => "lenient"
  | output => "output"

def letter? : Switch → Option Char
  | help => some 'h'
  | version => some 'V'
  | verbose => some 'v'
  | directory => some 'd'
  | importPath => some 'I'
  | configuration => some 'c'
  | lenient => none
  | output => some 'o'

def takesValue : Switch → Bool
  | help | version | verbose | lenient => false
  | directory | importPath | configuration | output => true

end Switch

/-- Why a command line is refused. -/
inductive UsageError where
  | noCommand
  | unknownCommand (word : String)
  | unknownSwitch (written : String)
  | unexpectedWord (word : String)
  | unexpectedValue (switch : Switch)
  | missingValue (switch : Switch)
  | refusedValue (switch : Switch) (value : String)
  | repeated (switch : Switch)
  | required (switch : Switch)
  deriving DecidableEq, Repr

def UsageError.message : UsageError → String
  | noCommand => "a command is needed"
  | unknownCommand word => "there is no command '" ++ word ++ "'"
  | unknownSwitch written => "there is no switch '" ++ written ++ "' here"
  | unexpectedWord word => "'" ++ word ++ "' is not expected"
  | unexpectedValue switch => "'--" ++ switch.name ++ "' takes no value"
  | missingValue switch => "'--" ++ switch.name ++ "' needs a value"
  | refusedValue switch value =>
    "'--" ++ switch.name ++ "' can not have the value '" ++ value ++ "'"
  | repeated switch => "'--" ++ switch.name ++ "' can be given only once"
  | required switch => "'--" ++ switch.name ++ "' is needed"

/-- What ends the reading of a command line early. -/
inductive Interruption where
  | help
  | version
  | misuse (error : UsageError)
  deriving DecidableEq, Repr

/-! ## Settings -/

/-- What the switches so far have set. -/
structure Settings where
  verbose : Bool := false
  directory : Option String := none
  importPaths : List String := []
  configuration : Option String := none
  lenient : Bool := false
  output : Option OutputFormat := none
  deriving DecidableEq, Repr

namespace Settings

/-- A value for a switch that may be given only once. -/
def once {α : Type} (switch : Switch) (given : Option α) (value : α) :
    Except Interruption (Option α) :=
  match given with
  | none => .ok (some value)
  | some _ => .error (.misuse (.repeated switch))

/-- The switch is on now; it may not have been before. -/
def turnOn (switch : Switch) (given : Bool) : Except Interruption Bool :=
  if given then .error (.misuse (.repeated switch)) else .ok true

/-- A path as the value of a switch; it may not be empty. -/
def path (switch : Switch) (value : String) : Except Interruption String :=
  if value = "" then .error (.misuse (.refusedValue switch value)) else .ok value

/-- The settings after a switch, with its value if it takes one. Help and version are asked for
instead of anything else. -/
def set (settings : Settings) (switch : Switch) (value : String) : Except Interruption Settings :=
  match switch with
  | .help => .error .help
  | .version => .error .version
  | .verbose => do return { settings with verbose := ← turnOn switch settings.verbose }
  | .lenient => do return { settings with lenient := ← turnOn switch settings.lenient }
  | .directory => do
    return { settings with directory := ← once switch settings.directory (← path switch value) }
  | .configuration => do
    return { settings with
      configuration := ← once switch settings.configuration (← path switch value) }
  | .importPath => do
    return { settings with importPaths := settings.importPaths ++ [← path switch value] }
  | .output =>
    match OutputFormat.ofName? value with
    | some format => do return { settings with output := ← once switch settings.output format }
    | none => .error (.misuse (.refusedValue switch value))

end Settings

/-! ## Words -/

/-- The form of a word. -/
inductive Word where
  | plain
  /-- Two dashes alone: no switch follows. -/
  | separator
  /-- A long name, with the value that follows an equals sign. -/
  | long (name : String) (value : Option String)
  | letters (letters : List Char)
  deriving DecidableEq, Repr

/-- The form of a word; a dash alone is a plain word. -/
def Word.of (word : String) : Word :=
  match word.toList with
  | ['-', '-'] => .separator
  | '-' :: '-' :: rest =>
    let name := String.ofList (rest.takeWhile (· ≠ '='))
    match rest.dropWhile (· ≠ '=') with
    | [] => .long name none
    | _ :: value => .long name (some (String.ofList value))
  | '-' :: letter :: rest => .letters (letter :: rest)
  | _ => .plain

end RpcCatalog.CommandLine
