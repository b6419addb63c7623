import RpcCatalog.Configuration
import RpcCatalog.Extraction
import RpcCatalog.Resolution
import RpcCatalog.Scan
import RpcCatalog.SearchPath

/-!
# The catalog of a directory

The resolved services of the files below a directory: the files are scanned for, extracted one after
another into one table, and the services that they declare are resolved.
-/

set_option autoImplicit false

namespace RpcCatalog

/-- What came of a run, and what it reported. -/
structure Outcome (α : Type) where
  result : Except CatalogError α
  events : List Event

/-- Extracts files one after another, until one fails. -/
def Workspace.extractAll (workspace : Workspace) (state : Extraction) :
    List Path → Except CatalogError Unit × Extraction
  | [] => (.ok (), state)
  | path :: paths =>
    match workspace.extractPath (state.report [.fileStarted path.baseName]) path with
    | (.ok (), state') => workspace.extractAll state' paths
    | (.error e, state') => (.error e, state')

/-- Resolves the services of the files found by a scan, from a filled table. -/
def Extraction.resolveServices (state : Extraction) (found : List Path) :
    Outcome (List (Service ResolvedType)) :=
  let names := found.map Path.baseName
  { result := state.table.resolveServices names
    events := state.events ++
      [.tableFilled state.table.types.size state.table.services.size,
        .resolving (state.table.servicesOf names).length state.table.types.size] }

/-- The resolved services of the files below a directory, in the order of the files. Imports are
found by `location`. -/
def catalogWith (files : FileSystem) (configuration : Configuration)
    (location : String → Option Path) (directory : Path) :
    Outcome (List (Service ResolvedType)) :=
  match files.scan directory configuration.extension with
  | .error e => ⟨.error e, []⟩
  | .ok found =>
    let overrides := configuration.packageOverrides.entries
    let events := .filesFound found.length directory
      :: PackageOverrides.wellKnown.registerAllEvents overrides
    match SymbolTable.withOverrides overrides with
    | .error e => ⟨.error e, events⟩
    | .ok table =>
      let workspace : Workspace := { files, location, lenient := configuration.lenient }
      match workspace.extractAll { table, events } found with
      | (.error e, state) => ⟨.error e, state.events⟩
      | (.ok (), state) => state.resolveServices found

/-- The resolved services of the files below a directory. Imports are looked for along the search
path of the configuration. -/
def catalog (files : FileSystem) (configuration : Configuration) (directory : Path) :
    Outcome (List (Service ResolvedType)) :=
  catalogWith files configuration (files.locateImport configuration.importRoots) directory

end RpcCatalog
