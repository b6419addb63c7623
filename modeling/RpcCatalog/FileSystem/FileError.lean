import RpcCatalog.Path

/-!
# File errors

Why paths cannot be followed, read or walked over.
-/

set_option autoImplicit false

namespace RpcCatalog

/-- Why a path could not be followed or read. -/
inductive FileError where
  | notFound
  | notADirectory
  | isADirectory
  | tooManyLinks
  | nameTooLong
  | zeroInPath
  | notUtf8
  | permissionDenied
  /-- Anything else that the system says. -/
  | other (text : String)
  /-- A walk over a tree was stopped at a path. -/
  | stopped (path : Path) (cause : FileError)
  deriving DecidableEq, Repr

namespace FileError

def message : FileError → String
  | notFound => "No such file or directory (os error 2)"
  | notADirectory => "Not a directory (os error 20)"
  | isADirectory => "Is a directory (os error 21)"
  | tooManyLinks => "Too many levels of symbolic links (os error 40)"
  | nameTooLong => "File name too long (os error 36)"
  | zeroInPath => "file name contained an unexpected NUL byte"
  | notUtf8 => "stream did not contain valid UTF-8"
  | permissionDenied => "Permission denied (os error 13)"
  | other text => text
  | stopped path cause => "IO error for operation on " ++ path.display ++ ": " ++ cause.message

/-- The texts of the error and of the causes below it, the error first. -/
def chain : FileError → List String
  | stopped path cause => message (stopped path cause) :: cause.chain
  | error => [error.message]

end FileError

end RpcCatalog
