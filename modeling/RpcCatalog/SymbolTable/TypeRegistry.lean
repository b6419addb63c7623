import RpcCatalog.NameMap
import RpcCatalog.Text.Quoted

/-!
# The type registry

Where the messages of each package land in the output language. The first registration of a name in
a package wins. Messages of files without a package are kept under the empty package, which no
package declaration can name.
-/

set_option autoImplicit false

namespace RpcCatalog

/-- Where a message lands in the output language. -/
structure TypeEntry where
  outputPackage : String
  /-- The names of the enclosing classes, the outermost first. -/
  enclosingClasses : List String := []
  name : String
  deriving DecidableEq, Repr, Inhabited

def TypeEntry.render (entry : TypeEntry) : String :=
  "TypeEntry \x7b output_package: " ++ Text.quoted entry.outputPackage ++ ", enclosing_classes: "
    ++ Text.quotedList entry.enclosingClasses ++ ", name: " ++ Text.quoted entry.name ++ " \x7d"

/-- The messages of each package with their entries. -/
structure TypeRegistry where
  packages : NameMap (NameMap TypeEntry)
  deriving DecidableEq

namespace TypeRegistry

def empty : TypeRegistry := ⟨NameMap.empty⟩

instance : Inhabited TypeRegistry := ⟨empty⟩

def package? (registry : TypeRegistry) (package : Option String) : Option (NameMap TypeEntry) :=
  registry.packages.find? (package.getD "")

def find? (registry : TypeRegistry) (package : Option String) (name : String) : Option TypeEntry :=
  (registry.package? package).bind (·.find? name)

/-- The registry with a message, unless it is known already. -/
def register (registry : TypeRegistry) (package : Option String) (name : String)
    (entry : TypeEntry) : TypeRegistry :=
  let types := (registry.package? package).getD NameMap.empty
  ⟨registry.packages.insert (package.getD "") (types.insertNew name entry)⟩

def size (registry : TypeRegistry) : Nat :=
  registry.packages.entries.foldr (fun (_, types) n => types.size + n) 0

def isEmpty (registry : TypeRegistry) : Bool := registry.size == 0

end TypeRegistry

end RpcCatalog
