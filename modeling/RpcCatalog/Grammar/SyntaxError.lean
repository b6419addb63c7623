import RpcCatalog.Grammar.Declarations

/-!
# Syntax errors

Where a text stops making sense, and how that is shown: the place, its line with a marker under the
column, and the rules that could have gone on from there.

* `SyntaxError.at`: the error of a text at a failure.
* `SyntaxError.render`: its text.
* `parseDeclarations`: the declarations of a file, or its syntax error.
-/

set_option autoImplicit false

namespace RpcCatalog

open Grammar (Rule Attempts)

/-- A place in a text where no rule could go on. -/
structure SyntaxError where
  line : Nat
  /-- The column of the place, in characters from one. -/
  column : Nat
  text : List Char
  /-- The rules that were tried there, in order of listing. -/
  expected : List Rule
  deriving DecidableEq, Repr

namespace SyntaxError

/-- The line and column reached after a text from line and column. Both `\n` and `\r\n` end a line;
a `\r` alone is an ordinary character. -/
def advance (line column : Nat) : List Char → Nat × Nat
  | [] => (line, column)
  | '\r' :: '\n' :: s => advance (line + 1) 1 s
  | '\n' :: s => advance (line + 1) 1 s
  | _ :: s => advance line (column + 1) s

def throughLineFeed : List Char → List Char
  | [] => []
  | c :: s => if c = '\n' then [c] else c :: throughLineFeed s

/-- The line that begins after the last line feed of `before` and goes on in `after`. -/
def lineAround (before after : List Char) : List Char :=
  (before.reverse.takeWhile (· ≠ '\n')).reverse ++ throughLineFeed after

def showLineEnds (text : List Char) : List Char :=
  text.map fun c => if c = '\r' then '␍' else if c = '\n' then '␊' else c

/-- How a line is shown: with its line ends visible if the place is at one of them, else without
them. -/
def shownLine (before after : List Char) : List Char :=
  let text := lineAround before after
  match after with
  | c :: _ =>
    if Grammar.isLineEnd c then showLineEnds text else text.filter (!Grammar.isLineEnd ·)
  | [] => text.filter (!Grammar.isLineEnd ·)

/-- The error of `source` at a failure. -/
def «at» (source : List Char) (failure : Attempts) : SyntaxError :=
  let before := source.take (source.length - failure.remaining)
  let after := source.drop (source.length - failure.remaining)
  let place := advance 1 1 before
  { line := place.1
    column := place.2
    text := shownLine before after
    expected := Rule.all.filter (· ∈ failure.rules) }

/-- A list in words: `a`, `a or b`, `a, b, or c`. -/
def inWords : List String → String
  | [] => ""
  | [a] => a
  | [a, b] => a ++ " or " ++ b
  | names => ", ".intercalate (names.dropLast ++ ["or " ++ (names.getLast?).getD ""])

/-- White space as wide as the columns before the place; tabs stay tabs. -/
def indent (error : SyntaxError) : String :=
  String.ofList ((error.text.take (error.column - 1)).map fun c => if c = '\t' then '\t' else ' ')

/-- The error's text, for the file of the given name. -/
def render (file : String) (error : SyntaxError) : String :=
  let lineNumber := toString error.line
  let margin := "".pushn ' ' lineNumber.length
  "\n".intercalate
    [ margin ++ "--> " ++ file ++ ":" ++ lineNumber ++ ":" ++ toString error.column,
      margin ++ " |",
      lineNumber ++ " | " ++ String.ofList error.text,
      margin ++ " | " ++ error.indent ++ "^---",
      margin ++ " |",
      margin ++ " = expected " ++ inWords (error.expected.map Rule.text) ]

end SyntaxError

/-- The declarations of a file's text, or the place where the text stops making sense. -/
def parseDeclarations (source : String) : Except SyntaxError (List Declaration) :=
  match Grammar.file.parse source.toList with
  | some (declarations, _) => .ok declarations
  | none => .error (.at source.toList (Grammar.file.furthestFailure source.toList))

end RpcCatalog
