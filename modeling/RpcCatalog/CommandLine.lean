import RpcCatalog.Catalog
import RpcCatalog.CommandLine.Failure
import RpcCatalog.CommandLine.Request
import RpcCatalog.CommandLine.Summary
import RpcCatalog.Configuration.Yaml

/-!
# The command line

What the program answers to a command line, given the files it can see.

* `CommandLine.run`: the answer to a row of arguments.
* `Request.reads`: the files whose contents the answer to a request depends on.
-/

set_option autoImplicit false

namespace RpcCatalog.CommandLine

/-- What the program writes, and how it ends. -/
structure Response where
  /-- Zero for success, one for a failed run, two for a command line that is refused. -/
  code : Nat := 0
  output : String := ""
  failure : Option Failure := none
  events : List Event := []

def versionText : String := "proto-service-generator 0.1.0\n"

def helpText : String :=
  unlines
    ["Resolve gRPC service descriptors from proto files", "",
      "Usage: proto-service-generator [OPTIONS] <COMMAND>", "",
      "Commands:",
      "  parse  Parse a proto directory and display the resolved services",
      "  scan   List the proto files a parse would start from",
      "  help   Print this message", "",
      "Options of all commands:",
      "  -d, --dir <DIR>                   Directory scanned recursively for proto files",
      "  -c, --config <CONFIG>             YAML configuration file",
      "  -v, --verbose                     Enable verbose output",
      "  -h, --help                        Print help", "",
      "Options of parse:",
      "  -I, --import-path <IMPORT_PATHS>  Import search root (repeatable, searched in order)",
      "      --lenient                     Skip files with syntax errors instead of failing",
      "  -o, --output <OUTPUT>             Output format: text or json [default: text]", "",
      "Options of the program:",
      "  -V, --version                     Print version"]

/-! ## Requests -/

/-- The settings of a configuration file, or the default ones. -/
def loadConfiguration (files : FileSystem) (file : Option String) : Except Failure Configuration :=
  match file with
  | none => .ok {}
  | some path =>
    match Configuration.load files path with
    | .ok configuration => .ok configuration
    | .error e => .error (.of ("Failed to load config " ++ path) (.configuration e))

/-- The configuration of a request: the file's settings with those of the switches added. -/
def Command.configuration (files : FileSystem) : Command → Except Failure Configuration
  | parse _ importPaths file lenient _ =>
    (loadConfiguration files file).map fun configuration =>
      { configuration with
        importPaths := configuration.importPaths ++ importPaths
        lenient := configuration.lenient || lenient }
  | scan _ file => loadConfiguration files file

/-- What is said before a run, if details are wanted. -/
def preamble (verbose : Bool) (configuration : Configuration) (directory : String) : String :=
  if verbose then
    unlines
      (("→ Parsing proto directory: " ++ directory)
        :: configuration.importPaths.map ("  Import path: " ++ ·))
  else ""

def catalogResponse (files : FileSystem) (verbose : Bool) (configuration : Configuration)
    (directory : String) (format : OutputFormat) : Response :=
  let start := preamble verbose configuration directory
  let outcome := catalog files configuration directory
  match outcome.result with
  | .error e =>
    { code := 1
      output := start
      failure := some (.of ("Failed to parse proto files in " ++ directory) e)
      events := outcome.events }
  | .ok services =>
    { output := start ++
        match format with
        | .text => servicesText verbose services
        | .json => (servicesJson services).renderPretty ++ "\n"
      events := outcome.events }

def scanResponse (files : FileSystem) (configuration : Configuration) (directory : String) :
    Response :=
  match files.scan directory configuration.extension with
  | .error e => { code := 1, failure := some (.of ("Failed to scan " ++ directory) e) }
  | .ok found =>
    { output := filesText found, events := [.filesFound found.length directory] }

def Request.answer (files : FileSystem) (request : Request) : Response :=
  match request.command.configuration files with
  | .error failure => { code := 1, failure := some failure }
  | .ok configuration =>
    match request.command with
    | .parse directory _ _ _ format =>
      catalogResponse files request.verbose configuration directory format
    | .scan directory _ => scanResponse files configuration directory

def run (files : FileSystem) (arguments : List String) : Response :=
  match Request.ofArguments arguments with
  | .ok request => request.answer files
  | .error .help => { output := helpText }
  | .error .version => { output := versionText }
  | .error (.misuse _) => { code := 2 }

/-! ## What a run depends on -/

def Command.directory : Command → String
  | parse directory .. => directory
  | scan directory _ => directory

def Command.configurationFile : Command → Option String
  | parse _ _ file .. => file
  | scan _ file => file

/-- The files whose contents the answer to a request depends on, as far as the files at hand tell:
an import shows only once the file that holds it is there. -/
def Request.reads (files : FileSystem) (request : Request) : List Path :=
  request.command.configurationFile.toList.map Path.ofText ++
    match request.command, request.command.configuration files with
    | .parse directory .., .ok configuration =>
      let found := (files.scan directory configuration.extension).toOption.getD []
      let imported := (catalog files configuration directory).events.filterMap Event.lookedUp?
      found ++ imported.flatMap (FileSystem.importCandidates configuration.importRoots)
    | _, _ => []

end RpcCatalog.CommandLine
