import RpcCatalog.Error

/-!
# Scanning directories

The files below a directory whose names have a given ending.

* `Node.walk`: a directory and everything below it, each directory's entries in order of their
  names, a directory before what it holds. Links are not followed.
* `FileSystem.obstacle?`: why a walk ends at a directory, if it does.
* `FileSystem.scan`: the files among what a walk meets.
-/

set_option autoImplicit false

namespace RpcCatalog

/-- What a walk meets. -/
structure Visit where
  path : Path
  isDirectory : Bool
  deriving DecidableEq, Repr

namespace Node

mutual

/-- A node at a path, and all that is below it. -/
def walk (path : Path) : Node → List Visit
  | directory entries _ => ⟨path, true⟩ :: walkEntries path entries
  | file _ => [⟨path, false⟩]
  | special _ => [⟨path, false⟩]
  | link _ => [⟨path, false⟩]

/-- The entries of the directory at a path, and all that is below them. -/
def walkEntries (path : Path) : List (FileName × Node) → List Visit
  | [] => []
  | (name, node) :: rest => walk (path.child name) node ++ walkEntries path rest

end

end Node

namespace FileSystem

/-- Why a walk ends at a directory: it is opened by its path, and that may fail. -/
def obstacle? (files : FileSystem) (path : Path) : Option FileError :=
  match files.list path with
  | .ok _ => none
  | .error e => some (.stopped path e)

/-- The name is a text that ends with the extension. -/
def hasExtension (extension : String) (name : FileName) : Bool :=
  name.text?.any fun text => (Text.beforeSuffix extension.toList text.toList).isSome

/-- The files below a directory whose names end with an extension. There has to be one, and the
directory and each one below it must let themselves be opened. -/
def scan (files : FileSystem) (directory : Path) (extension : String) :
    Except CatalogError (List Path) :=
  match files.find directory with
  | .error _ => .error (.directoryNotFound directory)
  | .ok node =>
    if node.isDirectory then
      let visits := node.walk directory
      match ((visits.filter Visit.isDirectory).map Visit.path).findSome? files.obstacle? with
      | some e => .error (.unreadable e)
      | none =>
        match (visits.filter fun visit =>
            visit.path.fileName.any (hasExtension extension) && files.isFile visit.path).map
              Visit.path with
        | [] => .error (.noFiles directory)
        | found => .ok found
    else .error (.notADirectory directory)

end FileSystem

end RpcCatalog
