import RpcCatalog.Error
import RpcCatalog.NameMap

/-!
# Package overrides

Packages whose types have a fixed output package. An override is set once: the same target again is
no change, another target is an error.
-/

set_option autoImplicit false

namespace RpcCatalog

def wellKnownPackage : String := "google.protobuf"

def wellKnownOutputPackage : String := "com.google.protobuf"

/-- Packages with the output package that all their types have. -/
structure PackageOverrides where
  targets : NameMap String
  deriving DecidableEq

namespace PackageOverrides

/-- Only the well-known types have a fixed output package. -/
def wellKnown : PackageOverrides := ⟨NameMap.empty.insert wellKnownPackage wellKnownOutputPackage⟩

instance : Inhabited PackageOverrides := ⟨wellKnown⟩

/-- The output package that a package is mapped to. -/
def find? (overrides : PackageOverrides) (package : String) : Option String :=
  overrides.targets.find? package

/-- What registering a mapping comes to, and the overrides after it. -/
def register (overrides : PackageOverrides) (package target : String) :
    Except CatalogError Unit × PackageOverrides :=
  match overrides.find? package with
  | some existing =>
    if existing = target then (.ok (), overrides)
    else (.error (.conflictingOverride package existing target), overrides)
  | none => (.ok (), ⟨overrides.targets.insert package target⟩)

/-- Mappings are registered one after another, until one fails. -/
def registerAll (overrides : PackageOverrides) :
    List (String × String) → Except CatalogError Unit × PackageOverrides
  | [] => (.ok (), overrides)
  | (package, target) :: rest =>
    match overrides.register package target with
    | (.ok (), overrides') => overrides'.registerAll rest
    | failed => failed

end PackageOverrides

end RpcCatalog
