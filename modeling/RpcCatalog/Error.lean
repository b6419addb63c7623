import RpcCatalog.FileSystem.Lookup
import RpcCatalog.Grammar.SyntaxError
import RpcCatalog.Text.Quoted
import RpcCatalog.TypeReference

/-!
# Errors

Why a run can fail, as causes. `CatalogError.message` is the text of each.
-/

set_option autoImplicit false

namespace RpcCatalog

/-- Why a configuration is refused. -/
inductive ConfigurationError where
  | unreadable (path : String) (cause : FileError)
  | malformed
  | unsupportedVersion (version : UInt32)
  | emptyExtension
  deriving DecidableEq, Repr

def ConfigurationError.message : ConfigurationError → String
  | unreadable path cause =>
    "Failed to read config file " ++ Text.quoted path ++ ": " ++ cause.message
  | malformed => "Failed to parse config YAML"
  | unsupportedVersion version => "Unsupported config version: " ++ toString version.toNat
  | emptyExtension => "File extension must not be empty"

/-- Why a run fails. -/
inductive CatalogError where
  | directoryNotFound (directory : Path)
  | notADirectory (directory : Path)
  | noFiles (directory : Path)
  | malformed (file : String) (cause : SyntaxError)
  | conflictingOverride (package existing requested : String)
  | unresolvedPackage (reference : TypeReference)
  | unresolvedType (reference : TypeReference)
  | configuration (cause : ConfigurationError)
  | unreadable (cause : FileError)
  deriving DecidableEq, Repr

namespace CatalogError

def message : CatalogError → String
  | directoryNotFound directory =>
    "Provided directory with proto files does not exist: " ++ directory.display
  | notADirectory directory =>
    "Expected a directory with proto files, not a single file: " ++ directory.display
  | noFiles directory => "No proto file was found in directory: " ++ directory.display
  | malformed file cause => "Syntax error in " ++ file ++ ": " ++ cause.render file
  | conflictingOverride package existing requested =>
    "Proto package '" ++ package ++ "' is already mapped to '" ++ existing
      ++ "', cannot remap to '" ++ requested ++ "'"
  | unresolvedPackage reference =>
    "Can not find proto package for type '" ++ reference.render ++ "'"
  | unresolvedType reference =>
    "Can not find type '" ++ reference.render ++ "' in its proto package"
  | configuration cause => "Config error: " ++ cause.message
  | unreadable cause => "IO error: " ++ cause.message

/-- The texts of the error and of the causes below it, the error first. -/
def chain : CatalogError → List String
  | unreadable cause => message (unreadable cause) :: cause.chain
  | error => [message error]

end CatalogError

end RpcCatalog
