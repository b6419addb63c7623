import RpcCatalog.FileSystem.Node

/-!
# Looking up paths

Where a path leads in a directory tree: names are followed from the root or from the working
directory, symbolic links from the directory that holds them, up to a limit.

* `FileSystem.locate`: the place a path leads to.
* `FileSystem.isFile`, `FileSystem.list`, `FileSystem.readText`: what is there.
* `FileSystem.identity`: one value for all paths that lead to one place.
-/

set_option autoImplicit false

namespace RpcCatalog

/-- A place in a directory tree: the names and nodes on the way from the root to it, the place
itself first. The root is the empty way. -/
abbrev Place := List (FileName × Node)

namespace FileSystem

def linkLimit : Nat := 40

def nameLimit : Nat := 255

/-- How many bytes a path may have where something is to be found at it. -/
def pathLimit : Nat := 4095

def nodeAt (files : FileSystem) : Place → Node
  | [] => files.root
  | (_, node) :: _ => node

/-- The place that is reached from a place by a way of segments, through at most `links` links. An
empty segment says that a directory stands before it; anything else is looked up in a directory that
must let it be. -/
def follow (files : FileSystem) (links : Nat) (place : Place) (way : List FileName) :
    Except FileError Place :=
  match way with
  | [] => .ok place
  | segment :: rest =>
    match files.nodeAt place with
    | .directory entries barriers =>
      if segment = "" then files.follow links place rest
      else
        match barriers.passage with
        | some e => .error e
        | none =>
          if segment = "." then files.follow links place rest
          else if segment = ".." then files.follow links place.tail rest
          else if nameLimit < segment.size then .error .nameTooLong
          else
            match NameMap.findIn segment entries with
            | none => .error .notFound
            | some (.link target) =>
              match links with
              | 0 => .error .tooManyLinks
              | links' + 1 =>
                files.follow links' (bif target.isAbsolute then [] else place)
                  (target.segments ++ rest)
            | some node => files.follow links ((segment, node) :: place) rest
    | _ => .error .notADirectory
termination_by (links, way.length)

/-- The place at the end of a way of names, whatever the directories on it refuse. -/
def placeAt (files : FileSystem) (place : Place) : List FileName → Except FileError Place
  | [] => .ok place
  | name :: way =>
    match NameMap.findIn name (files.nodeAt place).entries with
    | some node => files.placeAt ((name, node) :: place) way
    | none => .error .notFound

/-- Refuses what cannot be followed whatever the tree is. -/
def checkPath (path : Path) : Except FileError Unit :=
  bif path.segments.any (·.contains '\x00') then .error .zeroInPath
  else bif path.isEmpty then .error .notFound
  else .ok ()

/-- The place where a path starts: the program is in its working directory already. -/
def start (files : FileSystem) (path : Path) : Except FileError Place :=
  bif path.isAbsolute then .ok [] else files.placeAt [] files.workingDirectory

/-- The place that a path leads to, however long the path is: it is followed name by name. -/
def locate (files : FileSystem) (path : Path) : Except FileError Place := do
  checkPath path
  files.follow linkLimit (← files.start path) path.segments

/-- The node at a path, which must not be too long. -/
def find (files : FileSystem) (path : Path) : Except FileError Node := do
  checkPath path
  if pathLimit < path.size then .error .nameTooLong
  else return files.nodeAt (← files.locate path)

def isFile (files : FileSystem) (path : Path) : Bool :=
  match files.find path with
  | .ok node => node.isFile
  | .error _ => false

/-- The entries of the directory at a path. -/
def list (files : FileSystem) (path : Path) : Except FileError (List (FileName × Node)) :=
  match files.find path with
  | .error e => .error e
  | .ok (.directory entries barriers) =>
    match barriers.listing with
    | some e => .error e
    | none => .ok entries
  | .ok _ => .error .notADirectory

def readText (files : FileSystem) (path : Path) : Except FileError String :=
  match files.find path with
  | .ok (.file content) =>
    match String.fromUTF8? content with
    | some text => .ok text
    | none => .error .notUtf8
  | .ok (.special cause) => .error cause
  | .ok _ => .error .isADirectory
  | .error e => .error e

/-- What a path names: the place it leads to, or the path itself where it leads nowhere. -/
abbrev Identity := List PathComponent

/-- One value for all paths that lead to one place. Other than `find`, it does not ask how long a
path is, neither the one given nor the one that the place has. -/
def identity (files : FileSystem) (path : Path) : Identity :=
  match files.locate path with
  | .ok place => .root :: place.reverse.map fun entry => .name entry.1
  | .error _ => path.components

end FileSystem

end RpcCatalog
