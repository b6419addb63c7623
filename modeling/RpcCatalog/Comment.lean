import RpcCatalog.Text.Blank
import RpcCatalog.Text.Split

/-!
# Comments

* `commentText`: what a comment says, without its markers and decoration.
* `PendingComments`: the comments seen since a declaration last took them.
-/

set_option autoImplicit false

namespace RpcCatalog

open Text

/-- A line of a block comment without the star that decorates it. -/
def undecorated (line : List Char) : List Char := trim (dropLeading '*' (trim line))

/-- What the text between the markers of a block comment says: its lines, each undecorated. -/
def blockCommentText (inner : List Char) : List Char :=
  trim (List.intercalate ['\n'] ((splitOn '\n' inner).map undecorated))

/-- What a comment says. A text that is no comment is only trimmed. -/
def commentChars (raw : List Char) : List Char :=
  let raw := trim raw
  match afterPrefix ['/', '/'] raw with
  | some rest => trim rest
  | none =>
    match (afterPrefix ['/', '*'] raw).bind (beforeSuffix ['*', '/']) with
    | some inner => blockCommentText (dropLeading '*' inner)
    | none => raw

/-- What a comment says: `// text`, `/* text */` and `/** text */` all say `text`. -/
def commentText (raw : String) : String := String.ofList (commentChars raw.toList)

/-- The texts of the comments that no declaration has taken yet, the earliest first. -/
structure PendingComments where
  texts : List String := []
  deriving DecidableEq, Repr

namespace PendingComments

def push (pending : PendingComments) (raw : String) : PendingComments :=
  ⟨pending.texts ++ [commentText raw]⟩

def empty : PendingComments := {}

end PendingComments

end RpcCatalog
