import RpcCatalog.FileName
import RpcCatalog.Text.Split

/-!
# Paths

Slash-separated paths that keep their spelling, and the parts that they consist of.

* `Path.ofText`, `Path.display`: the path that a text spells, and a path as it is shown.
* `Path.components`: the parts of a path; two spellings of a path with equal parts are one path.
* `Path.fileName`, `Path.parent`, `Path.join`: as their names say.
* `Path.baseName`: the name that a file is known by.
-/

set_option autoImplicit false

namespace RpcCatalog

/-- A path, by what is between its slashes: one that starts with a slash has an empty name in front,
and one that ends with a slash an empty one behind. -/
structure Path where
  segments : List FileName
  deriving DecidableEq, Repr

/-- A part of a path. -/
inductive PathComponent where
  | root
  /-- A `.` at the very front; elsewhere it says nothing. -/
  | current
  | parent
  | name (name : FileName)
  deriving DecidableEq, Repr

namespace Path

def ofText (text : String) : Path :=
  ⟨(Text.splitOn '/' text.toList).map fun piece => .text (String.ofList piece)⟩

instance : Coe String Path := ⟨ofText⟩

def display (path : Path) : String := "/".intercalate (path.segments.map FileName.display)

/-- How many bytes a path has: those of its segments, and a slash before each but the first. -/
def size (path : Path) : Nat :=
  path.segments.foldr (fun segment rest => segment.size + 1 + rest) 0 - 1

def isEmpty (path : Path) : Bool :=
  match path.segments with
  | [] => true
  | [name] => name = ""
  | _ => false

def isAbsolute (path : Path) : Bool :=
  match path.segments with
  | first :: _ :: _ => first = ""
  | _ => false

/-- The part that a segment between slashes stands for, if any. -/
def componentOf (leading : Bool) (segment : FileName) : Option PathComponent :=
  if segment = "" then none
  else if segment = "." then if leading then some .current else none
  else if segment = ".." then some .parent
  else some (.name segment)

/-- The parts that segments stand for, each with the path up to it; `front` are the segments before
them. -/
def spansFrom (front : List FileName) (leading : Bool) :
    List FileName → List (PathComponent × Path)
  | [] => []
  | segment :: segments =>
    let spans := spansFrom (front ++ [segment]) false segments
    match componentOf leading segment with
    | some component => (component, ⟨front ++ [segment]⟩) :: spans
    | none => spans

/-- The parts of a path, each with the path up to it. -/
def spans (path : Path) : List (PathComponent × Path) :=
  bif path.isAbsolute then (.root, "/") :: spansFrom [] false path.segments
  else spansFrom [] true path.segments

def components (path : Path) : List PathComponent := path.spans.map Prod.fst

def fileName (path : Path) : Option FileName :=
  match path.components.getLast? with
  | some (.name name) => some name
  | _ => none

def parent (path : Path) : Option Path :=
  match path.spans.reverse with
  | [] | (.root, _) :: _ => none
  | [_] => some ""
  | _ :: (_, front) :: _ => some front

/-- The segments that stay in front when a path goes on. -/
def stem (path : Path) : List FileName :=
  if path.segments.getLast? = some (.text "") then path.segments.dropLast else path.segments

/-- `path` as seen from `base`. -/
def join (base path : Path) : Path :=
  bif path.isAbsolute || base.isEmpty then path else ⟨base.stem ++ path.segments⟩

/-- The path of a name as seen from `base`. -/
def child (base : Path) (name : FileName) : Path := base.join ⟨[name]⟩

/-- The name that a file is known by: its file name, or the whole path if that ends in none. -/
def baseName (path : Path) : String :=
  match path.fileName with
  | some name => name.display
  | none => path.display

/-- The package that an import path stands for: its directories, joined by dots. -/
def impliedPackage (path : String) : Option String :=
  match Text.splitLast '/' path.toList with
  | some (directories@(_ :: _), _) =>
    some (String.ofList (directories.map fun c => if c = '/' then '.' else c))
  | _ => none

end Path

end RpcCatalog
