import RpcCatalog.FileSystem.Lookup

/-!
# Search paths

Where imported files are looked for: in a list of root directories, never in the directory that is
scanned.
-/

set_option autoImplicit false

namespace RpcCatalog.FileSystem

/-- The places where an import is looked for: an absolute import names its place itself, any other
is looked for in each of the roots. -/
def importCandidates (roots : List Path) (imported : String) : List Path :=
  bif Path.isAbsolute imported then [(imported : Path)]
  else roots.map fun root => root.join imported

/-- The file that an import names: the first of its candidates that is a file. -/
def locateImport (files : FileSystem) (roots : List Path) (imported : String) : Option Path :=
  (importCandidates roots imported).find? files.isFile

end RpcCatalog.FileSystem
