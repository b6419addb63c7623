import RpcCatalog.Comment
import RpcCatalog.Event

/-!
# Extraction

Files read one after another into one symbol table, together with the files they import, each file
once.

* `methodsOf`: the methods of a service block.
* `FileScope.after`, `Extraction.declare`: what one declaration says about the next, and adds.
* `Workspace.approachImport`, `Workspace.approachPath`: what comes of a file before its
  declarations.
* `Workspace.followImport`: what an import adds; it never fails.
* `Workspace.extractSource`, `Workspace.extractPath`: a given text, a file.
-/

set_option autoImplicit false

namespace RpcCatalog

def outputPackageOption : String := "java_package"

/-! ## Methods -/

/-- The methods of a service block for types used in a package. Comments go to the call right after
them; any other entry in between drops them. -/
def methodsFrom (package : Option String) (pending : PendingComments) :
    List ServiceItem → List (Method TypeReference)
  | [] => []
  | .comment text :: items => methodsFrom package (pending.push text) items
  | .rpc signature :: items =>
    { name := signature.name
      requestTypes := [.qualify signature.requestType package]
      responseType := .qualify signature.responseType package
      comments := pending.texts } :: methodsFrom package .empty items
  | .other :: items => methodsFrom package .empty items

def methodsOf (package : Option String) (items : List ServiceItem) :
    List (Method TypeReference) :=
  methodsFrom package .empty items

/-! ## The state of a run -/

/-- What the declarations of a file so far say about the next one. -/
structure FileScope where
  package : Option String := none
  /-- The value of the option that sets the output package. -/
  outputOption : Option String := none
  comments : PendingComments := {}
  deriving DecidableEq, Repr

/-- The output package in force: the option if one was given so far, else the package, else the
default package. -/
def FileScope.outputPackage (scope : FileScope) : String :=
  (scope.outputOption.or scope.package).getD ""

def FileScope.service (scope : FileScope) (name : String) (items : List ServiceItem) :
    Service TypeReference :=
  { name
    protoPackage := scope.package
    outputPackage := scope.outputPackage
    methods := methodsOf scope.package items
    comments := scope.comments.texts }

/-- What the declarations up to and including one say about the next. -/
def FileScope.after (scope : FileScope) : Declaration → FileScope
  | .package name => { scope with package := some name }
  | .option name value =>
    if name = outputPackageOption then { scope with outputOption := some value } else scope
  | .comment text => { scope with comments := scope.comments.push text }
  | .service _ _ => { scope with comments := .empty }
  | .importing _ | .message _ | .other => scope

/-- A file that was found malformed. -/
structure MalformedFile where
  name : String
  cause : SyntaxError
  deriving DecidableEq, Repr

/-- The state of a run over files. -/
structure Extraction where
  table : SymbolTable
  processed : List FileSystem.Identity := []
  /-- The imported files that were found malformed, until they are extracted themselves. -/
  malformedImports : List (FileSystem.Identity × MalformedFile) := []
  /-- The imports looked up so far, with the location of each. -/
  lookups : List (String × Option Path) := []
  events : List Event := []

namespace Extraction

def report (state : Extraction) (events : List Event) : Extraction :=
  { state with events := state.events ++ events }

def meet (state : Extraction) (file : FileSystem.Identity) : Extraction :=
  { state with processed := file :: state.processed }

def lookedUp (state : Extraction) (path : String) (location : Option Path) : Extraction :=
  { state with lookups := state.lookups ++ [(path, location)] }

/-- The state with an imported file found malformed. -/
def setAside (state : Extraction) (file : FileSystem.Identity) (malformed : MalformedFile) :
    Extraction :=
  { state with malformedImports := (file, malformed) :: state.malformedImports }

def registerType (state : Extraction) (package : Option String) (name : String)
    (entry : TypeEntry) : Extraction :=
  { state.report (state.table.types.registerEvents package name entry) with
    table := state.table.registerType package name entry }

def registerService (state : Extraction) (file : String) (service : Service TypeReference) :
    Extraction :=
  { state.report (.serviceRegistered service.name service.methods.length file
      :: state.table.services.registerEvents file) with
    table := state.table.registerService file service }

/-- What a declaration of a file adds by itself; an import adds nothing itself. -/
def declare (state : Extraction) (file : String) (scope : FileScope) : Declaration → Extraction
  | .option name _ =>
    if name = outputPackageOption then state else state.report [.unmodelledSkipped file]
  | .message name =>
    state.registerType scope.package name { outputPackage := scope.outputPackage, name }
  | .service name items => state.registerService file (scope.service name items)
  | .other => state.report [.unmodelledSkipped file]
  | .importing _ | .package _ | .comment _ => state

/-- What one declaration of a file adds, where `follow` says what an import adds. -/
def enter (follow : Extraction → String → Extraction) (file : String) :
    Extraction × FileScope → Declaration → Extraction × FileScope
  | (state, scope), .importing path => (follow state path, scope)
  | (state, scope), declaration => (state.declare file scope declaration, scope.after declaration)

/-- What the declarations of a file add, one after another. -/
def enterAll (follow : Extraction → String → Extraction) (file : String) (state : Extraction)
    (declarations : List Declaration) : Extraction :=
  (declarations.foldl (enter follow file) (state, {})).1

end Extraction

/-! ## Files and imports -/

/-- What comes of a file before any of its declarations is entered. -/
inductive Approach (α : Type) where
  /-- The file is not found, or not met for the first time; nothing of it is read. -/
  | passed (outcome : α)
  /-- The file is met and cannot be read, or is malformed. -/
  | failed (outcome : α) (location : Path)
  /-- The file is met, and its declarations are to be entered. -/
  | opened (state : Extraction) (location : Path) (declarations : List Declaration)

/-- Where a run finds its files, and how it takes malformed ones. -/
structure Workspace where
  files : FileSystem
  location : String → Option Path
  lenient : Bool := false

namespace Workspace

/-- What comes of an import up to the declarations of the file it names. An import never fails the
run. -/
def approachImport (workspace : Workspace) (state : Extraction) (path : String) :
    Approach Extraction :=
  bif Path.impliedPackage path = some wellKnownPackage then
    .passed (state.report [.wellKnownSkipped path])
  else
    match workspace.location path with
    | none => .passed ((state.lookedUp path none).report [.importNotFound path])
    | some location =>
      let state := state.lookedUp path (some location)
      let identity := workspace.files.identity location
      if identity ∈ state.processed then .passed (state.report [.importKnown path])
      else
        let state := (state.meet identity).report [.importFollowed path location]
        match workspace.files.readText location with
        | .error e => .failed (state.report [.importFailed path (.unreadable e)]) location
        | .ok source =>
          let file := Path.baseName location
          match parseDeclarations source with
          | .error e =>
            .failed ((state.report [.importFailed path (.malformed file e)]).setAside identity
              ⟨file, e⟩) location
          | .ok declarations => .opened state location declarations

/-- What an import adds: the file it names is extracted, if it is found, new, readable and well
formed. Imports of the imported file are followed in turn, at most `depth` imports deep in all. -/
def followImport (workspace : Workspace) : Nat → Extraction → String → Extraction
  | 0, state, _ => state
  | depth + 1, state, path =>
    match workspace.approachImport state path with
    | .passed state => state
    | .failed state _ => state
    | .opened state location declarations =>
      state.enterAll (workspace.followImport depth) (Path.baseName location) declarations

/-- A depth that no run can reach: each import followed deeper is of another file. -/
def depthLimit (workspace : Workspace) : Nat := workspace.files.fileCount + 1

/-- Extracts a text under a file name. Only the text itself can be at fault. -/
def extractSource (workspace : Workspace) (state : Extraction) (file source : String) :
    Except CatalogError Unit × Extraction :=
  match parseDeclarations source with
  | .error e => (.error (.malformed file e), state)
  | .ok declarations =>
    (.ok (), state.enterAll (workspace.followImport workspace.depthLimit) file declarations)

/-- A malformed file ends the run, or is skipped with a warning. -/
def refuse (workspace : Workspace) (state : Extraction) (malformed : MalformedFile) :
    Except CatalogError Unit × Extraction :=
  if workspace.lenient then
    (.ok (), state.report [.malformedSkipped malformed.name malformed.cause])
  else (.error (.malformed malformed.name malformed.cause), state)

/-- What comes of a file up to its declarations. If it was met as an import it is not extracted
again; if it was found malformed then, that is taken up here. -/
def approachPath (workspace : Workspace) (state : Extraction) (path : Path) :
    Approach (Except CatalogError Unit × Extraction) :=
  let identity := workspace.files.identity path
  match state.malformedImports.lookup identity with
  | some malformed =>
    .passed (workspace.refuse
      { state with malformedImports := state.malformedImports.filter (·.1 ≠ identity) } malformed)
  | none =>
    if identity ∈ state.processed then .passed (.ok (), state.report [.fileKnown path])
    else
      let state := state.meet identity
      match workspace.files.readText path with
      | .error e => .failed (.error (.unreadable e), state) path
      | .ok source =>
        match parseDeclarations source with
        | .error e => .failed (workspace.refuse state ⟨path.baseName, e⟩) path
        | .ok declarations => .opened state path declarations

def extractPath (workspace : Workspace) (state : Extraction) (path : Path) :
    Except CatalogError Unit × Extraction :=
  match workspace.approachPath state path with
  | .passed outcome => outcome
  | .failed outcome _ => outcome
  | .opened state location declarations =>
    (.ok (), state.enterAll (workspace.followImport workspace.depthLimit) (Path.baseName location)
      declarations)

end Workspace

end RpcCatalog
