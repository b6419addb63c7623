import RpcCatalog.SymbolTable

/-!
# Resolution

The types that services name, as places in the output language.

* `SymbolTable.resolveType`: overrides come first, then the registered messages.
* `SymbolTable.resolveServices`: the services of some files, all resolved or none.
-/

set_option autoImplicit false

namespace RpcCatalog

/-- The output package with its enclosing classes joined in; empty parts are left out. -/
def TypeEntry.qualifiedPackage (entry : TypeEntry) : String :=
  ".".intercalate ((entry.outputPackage :: entry.enclosingClasses).filter (· ≠ ""))

/-- The place in the output language that an entry describes. -/
def TypeEntry.resolved (entry : TypeEntry) : ResolvedType :=
  { name := entry.name
    package := entry.qualifiedPackage
    enclosingClasses := entry.enclosingClasses }

namespace SymbolTable

/-- The output package that the package of a reference is overridden with. -/
def overrideOf (table : SymbolTable) (reference : TypeReference) : Option String :=
  reference.package.bind table.overrides.find?

/-- The place of a type. Types of overridden packages need no message to be known. -/
def resolveType (table : SymbolTable) (reference : TypeReference) :
    Except CatalogError ResolvedType :=
  match table.overrideOf reference with
  | some target => .ok { name := reference.name, package := target }
  | none =>
    match table.types.package? reference.package with
    | none => .error (.unresolvedPackage reference)
    | some types =>
      match types.find? reference.name with
      | none => .error (.unresolvedType reference)
      | some entry => .ok entry.resolved

def resolveService (table : SymbolTable) (service : Service TypeReference) :
    Except CatalogError (Service ResolvedType) :=
  service.mapTypesM table.resolveType

/-- The services registered for some file names. They are removed from the registry one by one; the
names seen before are passed over. -/
def removeServices (seen : List String) (registry : ServiceRegistry) :
    List String → List (Service TypeReference)
  | [] => []
  | file :: files =>
    if file ∈ seen then removeServices seen registry files
    else
      match registry.remove file with
      | (some service, rest) => service :: removeServices (file :: seen) rest files
      | (none, rest) => removeServices (file :: seen) rest files

/-- The services registered for some file names, in the order in which the names occur first. -/
def servicesOf (table : SymbolTable) (files : List String) : List (Service TypeReference) :=
  removeServices [] table.services files

/-- The services of some files, resolved; the first type that cannot be resolved ends it all. -/
def resolveServices (table : SymbolTable) (files : List String) :
    Except CatalogError (List (Service ResolvedType)) :=
  (table.servicesOf files).mapM table.resolveService

end SymbolTable

end RpcCatalog
