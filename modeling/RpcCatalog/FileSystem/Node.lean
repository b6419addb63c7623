import RpcCatalog.FileSystem.FileError
import RpcCatalog.NameMap

/-!
# Directory trees

Finite directory trees with files, directories and symbolic links.

* `Node`: what a name in a directory stands for.
* `Barriers`: why a directory cannot be listed, or nothing in it looked up.
* `Node.put`: a tree with one more path in it.
* `Node.fileCount`: the number of files in a tree.
* `FileSystem`: a tree with a working directory.
-/

set_option autoImplicit false

namespace RpcCatalog

/-- What a directory refuses, with the error that it is refused with. -/
structure Barriers where
  /-- Why its entries cannot be listed, if they cannot. -/
  listing : Option FileError := none
  /-- Why nothing can be looked up in it, if nothing can. -/
  passage : Option FileError := none
  deriving DecidableEq

/-- What either of two refuses. -/
def Barriers.or (a b : Barriers) : Barriers where
  listing := a.listing.or b.listing
  passage := a.passage.or b.passage

/-- What a name in a directory stands for. -/
inductive Node where
  /-- A regular file. -/
  | file (content : ByteArray)
  /-- A socket, a pipe or a device, with the reason why it gives no text. -/
  | special (cause : FileError)
  | link (target : Path)
  /-- A directory; its names are in increasing order. -/
  | directory (entries : List (FileName × Node)) (barriers : Barriers := {})
  deriving Inhabited

namespace Node

def entries : Node → List (FileName × Node)
  | directory entries _ => entries
  | _ => []

def barriers : Node → Barriers
  | directory _ barriers => barriers
  | _ => {}

def isFile : Node → Bool
  | file _ => true
  | _ => false

def isDirectory : Node → Bool
  | directory .. => true
  | _ => false

/-- The entries with a node put at the end of a way of names, and with directories on the way. An
empty directory that is put over a directory only adds what it refuses. -/
def put (node : Node) : List FileName → List (FileName × Node) → List (FileName × Node)
  | [], entries => entries
  | [name], entries =>
    match NameMap.findIn name entries, node with
    | some (directory below barriers), directory [] more =>
      NameMap.insertIn name (directory below (barriers.or more)) entries
    | _, _ => NameMap.insertIn name node entries
  | name :: way, entries =>
    let found := (NameMap.findIn name entries).getD (directory [])
    NameMap.insertIn name (directory (put node way found.entries) found.barriers) entries

mutual

def fileCount : Node → Nat
  | file _ => 1
  | special _ => 0
  | link _ => 0
  | directory entries _ => entriesFileCount entries

/-- The number of files in the entries of a directory. -/
def entriesFileCount : List (FileName × Node) → Nat
  | [] => 0
  | (_, node) :: rest => fileCount node + entriesFileCount rest

end

end Node

/-- A directory tree with a working directory, from which relative paths start. -/
structure FileSystem where
  rootEntries : List (FileName × Node)
  /-- The names that lead from the root to the working directory, links resolved. -/
  workingDirectory : List FileName

namespace FileSystem

def root (files : FileSystem) : Node := .directory files.rootEntries

def fileCount (files : FileSystem) : Nat := files.root.fileCount

end FileSystem

end RpcCatalog
