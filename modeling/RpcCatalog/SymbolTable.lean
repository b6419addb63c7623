import RpcCatalog.SymbolTable.PackageOverrides
import RpcCatalog.SymbolTable.ServiceRegistry
import RpcCatalog.SymbolTable.TypeRegistry

/-!
# Symbol tables

All that is known about a set of files: package overrides, messages and services.
-/

set_option autoImplicit false

namespace RpcCatalog

/-- All that is known about a set of files. -/
structure SymbolTable where
  overrides : PackageOverrides
  types : TypeRegistry
  services : ServiceRegistry
  deriving DecidableEq

namespace SymbolTable

def empty : SymbolTable := ⟨.wellKnown, .empty, .empty⟩

instance : Inhabited SymbolTable := ⟨empty⟩

/-- A table that knows further overrides beside the well-known one. -/
def withOverrides (overrides : List (String × String)) : Except CatalogError SymbolTable :=
  match PackageOverrides.wellKnown.registerAll overrides with
  | (.ok (), overrides) => .ok { empty with overrides }
  | (.error e, _) => .error e

/-- What registering an override comes to, and the table after it. -/
def override (table : SymbolTable) (package target : String) :
    Except CatalogError Unit × SymbolTable :=
  let (result, overrides) := table.overrides.register package target
  (result, { table with overrides })

def registerType (table : SymbolTable) (package : Option String) (name : String)
    (entry : TypeEntry) : SymbolTable :=
  { table with types := table.types.register package name entry }

def registerService (table : SymbolTable) (file : String) (service : Service TypeReference) :
    SymbolTable :=
  { table with services := table.services.register file service }

end SymbolTable

end RpcCatalog
