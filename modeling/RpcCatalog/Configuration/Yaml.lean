import RpcCatalog.Configuration
import RpcCatalog.Yaml.Document

/-!
# Configuration files

Configurations as YAML mappings. Unknown settings are ignored, a setting that is given twice is
refused, and so is one whose value has another form than it needs; texts may be any scalar.

* `Configuration.ofYaml`: the configuration that a text describes.
* `Configuration.load`: the one that a file describes, with its import paths as seen from there.
-/

set_option autoImplicit false

namespace RpcCatalog

open Yaml (Document)

namespace ConfigurationDraft

def once {α : Type} (given value : Option α) : Option (Option α) :=
  match given, value with
  | none, some a => some (some a)
  | _, _ => none

/-- The package overrides of a mapping; the last target of a package counts. -/
def overridesOfYaml? (document : Document) (node : Yaml.Node) : Option (NameMap String) := do
  let pairs ← (← document.pairs? node).mapM fun (package, target) => do
    return (← document.text? package, ← document.text? target)
  return NameMap.ofList pairs

/-- The draft with one more pair of a document's mapping. -/
def withYamlPair (document : Document) (draft : ConfigurationDraft)
    (pair : Yaml.Node × Yaml.Node) : Option ConfigurationDraft := do
  let name ← document.text? pair.1
  let node := pair.2
  if name = "version" then
    return { draft with version := ← once draft.version (document.number? node) }
  else if name = "extension" then
    return { draft with extension := ← once draft.extension (document.text? node) }
  else if name = "import_paths" then
    let paths := (document.items? node).bind (·.mapM document.text?)
    return { draft with importPaths := ← once draft.importPaths paths }
  else if name = "package_overrides" then
    let overrides := overridesOfYaml? document node
    return { draft with packageOverrides := ← once draft.packageOverrides overrides }
  else if name = "lenient_syntax" then
    return { draft with lenient := ← once draft.lenient (document.bool? node) }
  else return draft

def ofYaml? (document : Document) : Option ConfigurationDraft := do
  (← document.rootPairs?).foldlM (withYamlPair document) {}

end ConfigurationDraft

namespace Configuration

def ofYaml (text : String) : Except ConfigurationError Configuration :=
  match (Document.ofText? text).bind ConfigurationDraft.ofYaml? with
  | some draft => draft.complete.validate
  | none => .error .malformed

/-- The configuration that a file describes. Its relative import paths are meant as seen from the
directory of the file. -/
def load (files : FileSystem) (path : String) : Except ConfigurationError Configuration :=
  match files.readText path with
  | .error e => .error (.unreadable path e)
  | .ok text =>
    match ofYaml text, Path.parent path with
    | .ok configuration, some directory => .ok (configuration.relativeTo directory)
    | result, _ => result

end Configuration

end RpcCatalog
