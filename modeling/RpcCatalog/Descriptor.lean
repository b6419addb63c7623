import RpcCatalog.Configuration
import RpcCatalog.Json.Fields
import RpcCatalog.Service
import RpcCatalog.TypeReference

/-!
# Descriptors

Types, services and configurations as JSON values: `toJson` writes one and `ofJson?` reads it back.
-/

set_option autoImplicit false

namespace RpcCatalog

open Json (Value Fields)

def Json.Value.ofOption : Option String → Value
  | some text => .ofString text
  | none => .null

def Json.Value.ofStrings (texts : List String) : Value := .list (texts.map .ofString)

def Json.Value.strings? (value : Value) : Option (List String) := value.listOf? Value.text?

/-! ## Types -/

def TypeReference.toJson (reference : TypeReference) : Value :=
  .record
    [("name", .ofString reference.name), ("package", .ofOption reference.package)]

def TypeReference.ofJson? (value : Value) : Option TypeReference := do
  let fields ← Fields.of? ["name", "package"] value
  return { name := ← fields.required "name" Value.text?
           package := ← fields.nullable "package" Value.text? }

/-- A resolved type as a JSON value; without enclosing classes it does not mention them. -/
def ResolvedType.toJson (type : ResolvedType) : Value :=
  .record
    ([("name", .ofString type.name), ("package", .ofString type.package)]
      ++ match type.enclosingClasses with
        | [] => []
        | classes => [("enclosing_classes", .ofStrings classes)])

/-- The resolved type that a JSON value describes. -/
def ResolvedType.ofJson? (value : Value) : Option ResolvedType := do
  let fields ← Fields.of? ["name", "package", "enclosing_classes"] value
  return { name := ← fields.required "name" Value.text?
           package := ← fields.required "package" Value.text?
           enclosingClasses := ← fields.withDefault "enclosing_classes" Value.strings? [] }

/-! ## Services -/

def Method.toJson {τ : Type} (typeToJson : τ → Value) (method : Method τ) : Value :=
  .record
    [("name", .ofString method.name),
      ("request_types", .list (method.requestTypes.map typeToJson)),
      ("response_type", typeToJson method.responseType),
      ("comments", .ofStrings method.comments)]

def Method.ofJson? {τ : Type} (typeOfJson? : Value → Option τ) (value : Value) :
    Option (Method τ) := do
  let fields ← Fields.of? ["name", "request_types", "response_type", "comments"] value
  return { name := ← fields.required "name" Value.text?
           requestTypes := ← fields.required "request_types" (Value.listOf? typeOfJson?)
           responseType := ← fields.required "response_type" typeOfJson?
           comments := ← fields.withDefault "comments" Value.strings? [] }

def Service.toJson {τ : Type} (typeToJson : τ → Value) (service : Service τ) : Value :=
  .record
    [("name", .ofString service.name),
      ("proto_package", .ofOption service.protoPackage),
      ("output_package", .ofString service.outputPackage),
      ("methods", .list (service.methods.map (Method.toJson typeToJson))),
      ("comments", .ofStrings service.comments),
      ("annotations", .ofStrings service.annotations)]

def Service.ofJson? {τ : Type} (typeOfJson? : Value → Option τ) (value : Value) :
    Option (Service τ) := do
  let fields ← Fields.of?
    ["name", "proto_package", "output_package", "methods", "comments", "annotations"] value
  return { name := ← fields.required "name" Value.text?
           protoPackage := ← fields.nullable "proto_package" Value.text?
           outputPackage := ← fields.required "output_package" Value.text?
           methods := ← fields.required "methods" (Value.listOf? (Method.ofJson? typeOfJson?))
           comments := ← fields.withDefault "comments" Value.strings? []
           annotations := ← fields.withDefault "annotations" Value.strings? [] }

/-! ## Configurations -/

def overridesToJson (overrides : NameMap String) : Value :=
  .record (overrides.entries.map fun (package, target) => (package, .ofString target))

/-- The map of texts that a JSON object describes; the last member of a name counts. -/
def overridesOfJson? (value : Value) : Option (NameMap String) := do
  let pairs ← (← value.members?).mapM fun (package, target) => do
    return (package, ← target.text?)
  return NameMap.ofList pairs

def Configuration.toJson (configuration : Configuration) : Value :=
  .record
    [("version", .ofNat configuration.version.toNat),
      ("extension", .ofString configuration.extension),
      ("import_paths", .ofStrings configuration.importPaths),
      ("package_overrides", overridesToJson configuration.packageOverrides),
      ("lenient_syntax", .bool configuration.lenient)]

/-- The configuration that a JSON value describes. It need not be valid. -/
def Configuration.ofJson? (value : Value) : Option Configuration := do
  let fields ← Fields.of?
    ["version", "extension", "import_paths", "package_overrides", "lenient_syntax"] value
  let defaults : Configuration := {}
  return { version := ← fields.withDefault "version" Value.uint32? defaults.version
           extension := ← fields.withDefault "extension" Value.text? defaults.extension
           importPaths := ← fields.withDefault "import_paths" Value.strings? defaults.importPaths
           packageOverrides :=
             ← fields.withDefault "package_overrides" overridesOfJson? defaults.packageOverrides
           lenient := ← fields.withDefault "lenient_syntax" Value.bool? defaults.lenient }

end RpcCatalog
