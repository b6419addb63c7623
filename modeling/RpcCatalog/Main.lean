import RpcCatalog.CommandLine

/-!
# The program

Reads the files that a command line depends on into a directory tree, answers from that tree, and
writes the answer. A request is asked again and again which files it reads, until it names no new
one.
-/

set_option autoImplicit false

namespace RpcCatalog.Program

/-- The part of the disk that was looked at so far. -/
structure Snapshot where
  entries : List (FileName × Node) := []
  visited : List Path := []

/-- The system is asked for a path by a text, and answers names as texts. -/
def textOf (way : List FileName) : String := "/" ++ "/".intercalate (way.map FileName.display)

/-- The snapshot with a node at the end of a way of names. -/
def Snapshot.put (snapshot : Snapshot) (way : List FileName) (node : Node) : Snapshot :=
  { snapshot with entries := Node.put node way snapshot.entries }

/-- Why the system refuses something. -/
def refusal : IO.Error → FileError
  | .permissionDenied .. => .permissionDenied
  | e => .other e.toString

/-- A socket, a pipe or a device: the program does not read it. -/
def unread : Node := .special (.other "No such device or address (os error 6)")

/-- Looks at what a way of segments leads to from a directory, and at every link on it. -/
partial def follow (snapshot : Snapshot) (place : List FileName) :
    List FileName → IO (Snapshot × List FileName)
  | [] => return (snapshot, place)
  | segment :: rest => do
    if segment = "" || segment = "." then follow snapshot place rest
    else if segment = ".." then follow snapshot place.dropLast rest
    else
      let way := place ++ [segment]
      match ← ((← IO.currentDir) / textOf way).symlinkMetadata.toBaseIO with
      | .error e@(.permissionDenied ..) =>
        return (snapshot.put place (.directory [] { passage := some (refusal e) }), way)
      | .error _ => return (snapshot, way)
      | .ok status =>
        match status.type with
        | .dir => follow (snapshot.put way (.directory [])) way rest
        | .file =>
          match ← (IO.FS.readBinFile (textOf way)).toBaseIO with
          | .ok content => return (snapshot.put way (.file content), way)
          | .error _ => return (snapshot, way)
        | .symlink =>
          match ← (IO.FS.realPath (textOf way)).toBaseIO with
          | .ok target =>
            let target := Path.ofText target.toString
            follow (snapshot.put way (.link target)) [] (target.segments ++ rest)
          | .error _ => return (snapshot, way)
        | .other => return (snapshot.put way unread, way)

def Snapshot.visit (snapshot : Snapshot) (working : List FileName) (path : Path) :
    IO (Snapshot × List FileName) := do
  let snapshot := { snapshot with visited := path :: snapshot.visited }
  follow snapshot (if path.isAbsolute then [] else working) path.segments

/-- Looks at the names of everything below a directory, without the contents of its files. -/
partial def survey (snapshot : Snapshot) (place : List FileName) : IO Snapshot := do
  let directory := (← IO.currentDir) / textOf place
  if !(← directory.isDir) then return snapshot
  match ← directory.readDir.toBaseIO with
  | .error e => return snapshot.put place (.directory [] { listing := some (refusal e) })
  | .ok found =>
    let mut snapshot := snapshot
    for entry in found do
      let way := place ++ [.text entry.fileName]
      -- A name that is no text was changed into one under which nothing is found.
      match (← entry.path.symlinkMetadata.toBaseIO).toOption.map IO.FS.Metadata.type with
      | some .dir => snapshot ← survey (snapshot.put way (.directory [])) way
      | some .file => snapshot := snapshot.put way (.file .empty)
      | some .symlink => snapshot := (← follow snapshot place [.text entry.fileName]).1
      | some .other => snapshot := snapshot.put way unread
      | none => pure ()
    return snapshot

/-- Looks at the files that a request reads, until there are no others. -/
partial def gather (working : List FileName) (request : CommandLine.Request) (snapshot : Snapshot) :
    IO FileSystem := do
  let files : FileSystem := ⟨snapshot.entries, working⟩
  match (request.reads files).filter fun path => !snapshot.visited.contains path with
  | [] => return files
  | paths =>
    let mut snapshot := snapshot
    for path in paths do
      snapshot := (← snapshot.visit working path).1
    gather working request snapshot

def filesOf (arguments : List String) : IO FileSystem := do
  let segments := (Path.ofText (← IO.currentDir).toString).segments
  let working := segments.filter fun name => name ≠ .text ""
  let start := Snapshot.put {} working (.directory [])
  match CommandLine.Request.ofArguments arguments with
  | .error _ => return ⟨start.entries, working⟩
  | .ok request =>
    let (snapshot, place) ← start.visit working request.command.directory
    gather working request (← survey snapshot place)

end RpcCatalog.Program

open RpcCatalog in
def main (arguments : List String) : IO UInt32 := do
  match CommandLine.Request.ofArguments arguments with
  | .error (.misuse error) =>
    IO.eprintln ("error: " ++ error.message ++ "\n\nFor more information, try '--help'.")
    return 2
  | request =>
    let response := CommandLine.run (← Program.filesOf arguments) arguments
    let verbose := (request.map CommandLine.Request.verbose).toOption.getD false
    for event in response.events do
      if event.level.isShown verbose then IO.eprintln event.render
    IO.print response.output
    if let some failure := response.failure then IO.eprint failure.render
    return response.code.toUInt32
