import RpcCatalog.SymbolTable

/-!
# Events

What a run reports on its way, with the level of each report and its text.
-/

set_option autoImplicit false

namespace RpcCatalog

/-- How much a report matters, from least to most. -/
inductive Level where
  | trace
  | debug
  | info
  | warn
  | error
  deriving DecidableEq, Repr

def Level.text : Level → String
  | trace => "TRACE"
  | debug => "DEBUG"
  | info => "INFO"
  | warn => "WARN"
  | error => "ERROR"

/-- Whether a report is shown. Details are shown on demand, traces never. -/
def Level.isShown (verbose : Bool) : Level → Bool
  | trace => false
  | debug => verbose
  | info | warn | error => true

/-- What a run reports. -/
inductive Event where
  | overriding (package target : String)
  | typeRegistered (reference : TypeReference) (entry : TypeEntry)
  | typeIgnored (reference : TypeReference) (existing ignored : TypeEntry)
  | serviceRegistered (service : String) (methods : Nat) (file : String)
  | serviceReplaced (previous file : String)
  | unmodelledSkipped (file : String)
  | wellKnownSkipped (path : String)
  | importNotFound (path : String)
  | importKnown (path : String)
  | importFollowed (path : String) (location : Path)
  | importFailed (path : String) (cause : CatalogError)
  | fileKnown (path : Path)
  | malformedSkipped (file : String) (cause : SyntaxError)
  | filesFound (count : Nat) (directory : Path)
  | fileStarted (file : String)
  | tableFilled (types services : Nat)
  | resolving (services types : Nat)

namespace Event

def level : Event → Level
  | unmodelledSkipped _ | wellKnownSkipped _ => .trace
  | overriding .. | typeRegistered .. | serviceRegistered .. | serviceReplaced .. | importKnown _
  | importFollowed .. | fileKnown _ | resolving .. => .debug
  | filesFound .. | fileStarted _ | tableFilled .. => .info
  | typeIgnored .. | importNotFound _ | importFailed .. | malformedSkipped .. => .warn

def message : Event → String
  | overriding package target => "Overriding proto package " ++ package ++ " -> " ++ target
  | typeRegistered reference entry =>
    "Registered type " ++ reference.render ++ " -> " ++ entry.outputPackage ++ "." ++ entry.name
  | typeIgnored reference existing ignored =>
    "Type " ++ reference.render ++ " is already registered as " ++ existing.render
      ++ ", ignoring " ++ ignored.render
  | serviceRegistered service methods file =>
    "Registered service " ++ service ++ " with " ++ toString methods ++ " methods from " ++ file
  | serviceReplaced previous file =>
    "Service " ++ previous ++ " of " ++ file ++ " replaced by a later declaration"
  | unmodelledSkipped file => "Skipping unmodeled declaration in " ++ file
  | wellKnownSkipped path => "Not following well-known import " ++ path
  | importNotFound path => "Can not find resource with name = " ++ path
  | importKnown path => "Import " ++ path ++ " was already processed"
  | importFollowed path location => "Following import " ++ path ++ " -> " ++ location.display
  | importFailed path cause =>
    "Can not parse resource with name = " ++ path ++ ": " ++ cause.message
  | fileKnown path => "Skipping " ++ path.display ++ ", already extracted as an import"
  | malformedSkipped file cause =>
    "Skipping " ++ file ++ " after syntax error: " ++ cause.render file
  | filesFound count directory =>
    toString count ++ " proto files were found in directory " ++ directory.display
  | fileStarted file => "Parsing '" ++ file ++ "' file"
  | tableFilled types services =>
    "Registered " ++ toString types ++ " types and " ++ toString services ++ " services"
  | resolving services types =>
    "Resolving " ++ toString services ++ " services against " ++ toString types
      ++ " registered types"

/-- The import that was looked up, if the event tells of one. -/
def lookedUp? : Event → Option String
  | importNotFound path | importKnown path | importFollowed path _ => some path
  | _ => none

def render (event : Event) : String := event.level.text ++ " " ++ event.message

end Event

/-! ## What each change of a table reports -/

def PackageOverrides.registerEvents (overrides : PackageOverrides) (package target : String) :
    List Event :=
  match overrides.find? package with
  | some _ => []
  | none => [.overriding package target]

/-- Overrides are reported one after another, until one fails. -/
def PackageOverrides.registerAllEvents (overrides : PackageOverrides) :
    List (String × String) → List Event
  | [] => []
  | (package, target) :: rest =>
    overrides.registerEvents package target ++
      match overrides.register package target with
      | (.ok (), overrides') => overrides'.registerAllEvents rest
      | (.error _, _) => []

/-- A new message is reported, and one that differs from the message of its name too. -/
def TypeRegistry.registerEvents (registry : TypeRegistry) (package : Option String)
    (name : String) (entry : TypeEntry) : List Event :=
  match registry.find? package name with
  | some existing => if existing = entry then [] else [.typeIgnored ⟨name, package⟩ existing entry]
  | none => [.typeRegistered ⟨name, package⟩ entry]

/-- The service that a new one replaces is reported. -/
def ServiceRegistry.registerEvents (registry : ServiceRegistry) (file : String) : List Event :=
  match registry.find? file with
  | some previous => [.serviceReplaced previous.name file]
  | none => []

end RpcCatalog
