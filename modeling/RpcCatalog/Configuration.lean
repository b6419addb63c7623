import RpcCatalog.Error
import RpcCatalog.NameMap

/-!
# Configurations

The settings of a run, and which of them are valid.

* `Configuration`, `Configuration.validate`: the settings.
* `ConfigurationDraft`: settings of which some are not given.
-/

set_option autoImplicit false

namespace RpcCatalog

/-- The settings of a run. -/
structure Configuration where
  version : UInt32 := 1
  extension : String := ".proto"
  /-- The directories that imports are looked for in, in order. -/
  importPaths : List String := []
  packageOverrides : NameMap String := NameMap.empty
  lenient : Bool := false
  deriving DecidableEq

namespace Configuration

instance : Inhabited Configuration := ⟨{}⟩

def importRoots (configuration : Configuration) : List Path :=
  configuration.importPaths.map Path.ofText

/-- The configuration with one more directory for imports. -/
def withImportPath (configuration : Configuration) (path : String) : Configuration :=
  { configuration with importPaths := configuration.importPaths ++ [path] }

/-- The configuration with a package override, in place of an earlier one of the package. -/
def withPackageOverride (configuration : Configuration) (package target : String) :
    Configuration :=
  { configuration with
    packageOverrides := configuration.packageOverrides.insert package target }

/-- The configuration, if this library can work with it. -/
def validate (configuration : Configuration) : Except ConfigurationError Configuration :=
  if configuration.version ≠ 1 then .error (.unsupportedVersion configuration.version)
  else if configuration.extension = "" then .error .emptyExtension
  else .ok configuration

/-- The configuration with its relative import paths as seen from a directory. -/
def relativeTo (directory : Path) (configuration : Configuration) : Configuration :=
  { configuration with
    importPaths := configuration.importRoots.map fun path => (directory.join path).display }

end Configuration

/-- The settings that a text gives; those it does not give keep their defaults. -/
structure ConfigurationDraft where
  version : Option UInt32 := none
  extension : Option String := none
  importPaths : Option (List String) := none
  packageOverrides : Option (NameMap String) := none
  lenient : Option Bool := none
  deriving DecidableEq

def ConfigurationDraft.complete (draft : ConfigurationDraft) : Configuration :=
  { version := draft.version.getD 1
    extension := draft.extension.getD ".proto"
    importPaths := draft.importPaths.getD []
    packageOverrides := draft.packageOverrides.getD NameMap.empty
    lenient := draft.lenient.getD false }

end RpcCatalog
