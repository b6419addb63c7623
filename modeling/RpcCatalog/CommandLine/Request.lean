import RpcCatalog.CommandLine.Switch

/-!
# Requests

What a command line asks for. Words are read from left to right, and the first that is at fault
decides; switches of the whole program may stand before or after the name of the command.

* `readSwitches`: the settings of the switches at the front of a row of words.
* `Request.ofArguments`: the request of a command line.
-/

set_option autoImplicit false

namespace RpcCatalog.CommandLine

/-- What the program does. -/
inductive Command where
  | parse (directory : String) (importPaths : List String) (configuration : Option String)
      (lenient : Bool) (output : OutputFormat)
  | scan (directory : String) (configuration : Option String)
  deriving DecidableEq, Repr

/-- What a command line asks for. -/
structure Request where
  verbose : Bool
  command : Command
  deriving DecidableEq, Repr

/-! ## Switches -/

def programSwitches : List Switch := [.verbose, .help, .version]

/-- The switches of the command that resolves services. -/
def parseSwitches : List Switch :=
  [.directory, .importPath, .configuration, .lenient, .output, .verbose, .help]

def scanSwitches : List Switch := [.directory, .configuration, .verbose, .help]

/-- The settings after a word of letters, and the switch that still waits for its value. What
follows the letter of a switch with a value is the value, less an equals sign. -/
def Settings.setLetters (switches : List Switch) (settings : Settings) :
    List Char → Except Interruption (Settings × Option Switch)
  | [] => .ok (settings, none)
  | letter :: rest =>
    match switches.find? (·.letter? = some letter) with
    | none => .error (.misuse (.unknownSwitch ("-" ++ letter.toString)))
    | some switch =>
      if switch.takesValue then
        match rest with
        | [] => .ok (settings, some switch)
        | '=' :: value => (settings.set switch (String.ofList value)).map (·, none)
        | value => (settings.set switch (String.ofList value)).map (·, none)
      else
        match settings.set switch "" with
        | .ok settings => settings.setLetters switches rest
        | .error e => .error e

/-- The settings after a long name, and the switch that still waits for its value. -/
def Settings.setLong (switches : List Switch) (settings : Settings) (name : String)
    (value : Option String) : Except Interruption (Settings × Option Switch) :=
  match switches.find? (·.name = name) with
  | none => .error (.misuse (.unknownSwitch ("--" ++ name)))
  | some switch =>
    match switch.takesValue, value with
    | true, none => .ok (settings, some switch)
    | true, some value => (settings.set switch value).map (·, none)
    | false, none => (settings.set switch "").map (·, none)
    | false, some _ => .error (.misuse (.unexpectedValue switch))

/-- The settings of the switches at the front of a row of words, and the words from the first plain
one on. -/
def readSwitches (switches : List Switch) (settings : Settings) :
    List String → Except Interruption (Settings × List String)
  | [] => .ok (settings, [])
  | word :: rest =>
    let outcome := match Word.of word with
      | .long name value => some (settings.setLong switches name value)
      | .letters letters => some (settings.setLetters switches letters)
      | _ => none
    match outcome, rest with
    | some (.error e), _ => .error e
    | some (.ok (settings, none)), rest => readSwitches switches settings rest
    | some (.ok (_, some switch)), [] => .error (.misuse (.missingValue switch))
    | some (.ok (settings, some switch)), value :: rest =>
      if Word.of value = .plain then
        match settings.set switch value with
        | .ok settings => readSwitches switches settings rest
        | .error e => .error e
      else .error (.misuse (.missingValue switch))
    | none, rest =>
      if Word.of word = .separator then
        match rest with
        | [] => .ok (settings, [])
        | word :: _ => .error (.misuse (.unexpectedWord word))
      else .ok (settings, word :: rest)

/-- The settings of a row of words that are all switches. -/
def settingsOf (switches : List Switch) (words : List String) : Except Interruption Settings :=
  match readSwitches switches {} words with
  | .ok (settings, []) => .ok settings
  | .ok (_, word :: _) => .error (.misuse (.unexpectedWord word))
  | .error e => .error e

/-! ## Commands -/

def Settings.requiredDirectory (settings : Settings) : Except Interruption String :=
  match settings.directory with
  | some directory => .ok directory
  | none => .error (.misuse (.required .directory))

/-- The request of the words after the name of a command. -/
def Request.ofCommand (verbose : Bool) (name : String) (words : List String) :
    Except Interruption Request :=
  if name = "parse" then do
    let settings ← settingsOf parseSwitches words
    let directory ← settings.requiredDirectory
    return { verbose := verbose || settings.verbose
             command := .parse directory settings.importPaths settings.configuration
               settings.lenient (settings.output.getD .text) }
  else if name = "scan" then do
    let settings ← settingsOf scanSwitches words
    let directory ← settings.requiredDirectory
    return { verbose := verbose || settings.verbose
             command := .scan directory settings.configuration }
  else if name = "help" then
    match words with
    | [] | ["parse"] | ["scan"] | ["help"] => .error .help
    | word :: _ => .error (.misuse (.unknownCommand word))
  else .error (.misuse (.unknownCommand name))

def Request.ofArguments (words : List String) : Except Interruption Request :=
  match readSwitches programSwitches {} words with
  | .error e => .error e
  | .ok (_, []) => .error (.misuse .noCommand)
  | .ok (settings, name :: rest) => Request.ofCommand settings.verbose name rest

end RpcCatalog.CommandLine
