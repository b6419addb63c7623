import RpcCatalog.NameMap
import RpcCatalog.Service
import RpcCatalog.TypeReference

/-!
# The service registry

The service that each file declares, under the file's name. The last declaration wins.
-/

set_option autoImplicit false

namespace RpcCatalog

/-- File names with the service that the file declares. -/
structure ServiceRegistry where
  services : NameMap (Service TypeReference)
  deriving DecidableEq

namespace ServiceRegistry

def empty : ServiceRegistry := ⟨NameMap.empty⟩

instance : Inhabited ServiceRegistry := ⟨empty⟩

def find? (registry : ServiceRegistry) (file : String) : Option (Service TypeReference) :=
  registry.services.find? file

/-- The registry with a file's service, in place of an earlier one. -/
def register (registry : ServiceRegistry) (file : String) (service : Service TypeReference) :
    ServiceRegistry :=
  ⟨registry.services.insert file service⟩

/-- The service of a file, and the registry without it. -/
def remove (registry : ServiceRegistry) (file : String) :
    Option (Service TypeReference) × ServiceRegistry :=
  (registry.find? file, ⟨registry.services.erase file⟩)

def size (registry : ServiceRegistry) : Nat := registry.services.size

def isEmpty (registry : ServiceRegistry) : Bool := registry.services.isEmpty

end ServiceRegistry

end RpcCatalog
