import RpcCatalog.Yaml.Cursor

/-!
# Scalars

The texts of YAML: plain, in quotes, and in blocks. Each is read from a cursor at its first
character. Line ends inside are folded: a single one becomes a space, of several the first is
dropped, and a block that is literal keeps them all.

Every loop has a bound on its steps, for which the number of characters that are left is enough.
-/

set_option autoImplicit false

namespace RpcCatalog.Yaml

/-- How a scalar is written. -/
inductive ScalarStyle where
  | plain
  | quoted
  | literal
  | folded
  deriving DecidableEq, Repr

/-! ## Folding -/

/-- The white space between two pieces of a scalar. -/
structure Folding where
  blanks : List Char := []
  broken : Bool := false
  firstBreak : List Char := []
  moreBreaks : List Char := []

namespace Folding

/-- What the first line end and the further ones become. -/
def foldBreaks (firstBreak moreBreaks : List Char) : List Char :=
  if firstBreak = ['\n'] then if moreBreaks = [] then [' '] else moreBreaks
  else firstBreak ++ moreBreaks

def text (folding : Folding) : List Char :=
  if folding.broken then foldBreaks folding.firstBreak folding.moreBreaks else folding.blanks

/-- Reads white space. A tab left of column `margin` is refused. -/
def read (margin : Nat) : Nat → Folding → Cursor → Option (Folding × Cursor)
  | 0, folding, k => some (folding, k)
  | fuel + 1, folding, k =>
    match k.peek with
    | some c =>
      if isBlank c then
        if folding.broken then
          if c = '\t' && k.column < margin then none else read margin fuel folding k.skip
        else read margin fuel { folding with blanks := folding.blanks ++ [c] } k.skip
      else if isBreak c then
        let (ended, k') := k.takeBreak
        if folding.broken then
          read margin fuel { folding with moreBreaks := folding.moreBreaks ++ ended } k'
        else read margin fuel { folding with blanks := [], broken := true, firstBreak := ended } k'
      else some (folding, k)
    | none => some (folding, k)

end Folding

/-! ## Plain scalars -/

/-- The characters that end a plain scalar inside brackets. -/
def isFlowMark (c : Char) : Bool := c = ',' || c = '[' || c = ']' || c = '{' || c = '}'

/-- The piece of a plain scalar before the next white space or mark. Inside brackets, a colon right
before a bracket, comma or question mark is refused. -/
def plainPiece (inFlow : Bool) : Nat → List Char → Cursor → Option (List Char × Cursor)
  | 0, piece, k => some (piece, k)
  | fuel + 1, piece, k =>
    match k.peek with
    | none => some (piece, k)
    | some c =>
      if k.atGap then some (piece, k)
      else if inFlow && c = ':' && k.seesAny (fun d => isFlowMark d || d = '?') 1 then none
      else if (c = ':' && k.atGap 1) || (inFlow && isFlowMark c) then some (piece, k)
      else plainPiece inFlow fuel (piece ++ [c]) k.skip

/-- A plain scalar's text so far, the white space after it, and the place after that. -/
def plainScalarFrom (inFlow : Bool) (margin : Nat) :
    Nat → List Char → Folding → Cursor → Option (List Char × Folding × Cursor)
  | 0, text, folding, k => some (text, folding, k)
  | fuel + 1, text, folding, k =>
    if k.atDocumentMark || k.sees '#' then some (text, folding, k)
    else
      match plainPiece inFlow k.rest.length [] k with
      | none => none
      | some (piece, k') =>
        let text' := if piece = [] then text else text ++ folding.text ++ piece
        let folding' := if piece = [] then folding else {}
        if k'.seesAny fun c => isBlank c || isBreak c then
          match Folding.read margin k'.rest.length folding' k' with
          | none => none
          | some (folding'', k'') =>
            if !inFlow && k''.column < margin then some (text', folding'', k'')
            else plainScalarFrom inFlow margin fuel text' folding'' k''
        else some (text', folding', k')

/-- A plain scalar whose further lines start at column `margin` at least, whether lines have ended
after it, and the place after it. -/
def plainScalar (inFlow : Bool) (margin : Nat) (k : Cursor) : Option (List Char × Bool × Cursor) :=
  (plainScalarFrom inFlow margin (k.rest.length + 1) [] {} k).map fun (text, folding, k') =>
    (text, folding.broken, k')

/-! ## Quoted scalars -/

def hexDigit? (c : Char) : Option Nat :=
  if c.isDigit then some (c.toNat - '0'.toNat)
  else if 'a' ≤ c && c ≤ 'f' then some (c.toNat - 'a'.toNat + 10)
  else if 'A' ≤ c && c ≤ 'F' then some (c.toNat - 'A'.toNat + 10)
  else none

def hexNumber? (digits : List Char) : Option Nat :=
  digits.foldlM (fun n c => (hexDigit? c).map (n * 16 + ·)) 0

def charOfCode? (code : Nat) : Option Char :=
  if code < 0xD800 || (0xDFFF < code && code ≤ 0x10FFFF) then some (Char.ofNat code) else none

/-- The characters that a backslash and one letter stand for. -/
def letterEscape? : Char → Option Char
  | '0' => some '\x00'
  | 'a' => some '\x07'
  | 'b' => some '\x08'
  | 't' => some '\t'
  | '\t' => some '\t'
  | 'n' => some '\n'
  | 'v' => some '\x0b'
  | 'f' => some '\x0c'
  | 'r' => some '\r'
  | 'e' => some '\x1b'
  | ' ' => some ' '
  | '"' => some '"'
  | '/' => some '/'
  | '\\' => some '\\'
  | 'N' => some '\u0085'
  | '_' => some '\u00A0'
  | 'L' => some '\u2028'
  | 'P' => some '\u2029'
  | _ => none

/-- The number of hexadecimal digits after an escape letter. -/
def escapeDigits? : Char → Option Nat
  | 'x' => some 2
  | 'u' => some 4
  | 'U' => some 8
  | _ => none

/-- The character of the escape at a backslash, and the place after it. -/
def escape? (k : Cursor) : Option (Char × Cursor) := do
  let letter ← k.peek 1
  match letterEscape? letter with
  | some c => return (c, k.skip 2)
  | none =>
    let width ← escapeDigits? letter
    let digits := (k.rest.drop 2).take width
    guard (digits.length = width)
    let c ← charOfCode? (← hexNumber? digits)
    return (c, k.skip (2 + width))

/-- The piece of a quoted scalar before the next white space or closing quote, and whether it ends
with an escaped line end. -/
def quotedPiece (quote : Char) :
    Nat → List Char → Cursor → Option (List Char × Bool × Cursor)
  | 0, piece, k => some (piece, false, k)
  | fuel + 1, piece, k =>
    match k.peek with
    | none => some (piece, false, k)
    | some c =>
      if k.atGap then some (piece, false, k)
      else if c = quote then
        if quote = '\'' && k.sees '\'' 1 then quotedPiece quote fuel (piece ++ ['\'']) (k.skip 2)
        else some (piece, false, k)
      else if quote = '"' && c = '\\' then
        if k.seesAny isBreak 1 then some (piece, true, k.skip.skipBreak)
        else
          match escape? k with
          | some (escaped, k') => quotedPiece quote fuel (piece ++ [escaped]) k'
          | none => none
      else quotedPiece quote fuel (piece ++ [c]) k.skip

/-- The rest of a quoted scalar's text, and the place after its closing quote. -/
def quotedScalarFrom (quote : Char) : Nat → List Char → Cursor → Option (List Char × Cursor)
  | 0, _, _ => none
  | fuel + 1, text, k =>
    if k.atDocumentMark || k.rest.isEmpty then none
    else
      match quotedPiece quote k.rest.length [] k with
      | none => none
      | some (piece, escapedBreak, k') =>
        if k'.sees quote then some (text ++ piece, k'.skip)
        else
          match Folding.read 0 k'.rest.length { broken := escapedBreak } k' with
          | none => none
          | some (folding, k'') =>
            quotedScalarFrom quote fuel (text ++ piece ++ folding.text) k''

/-- The text of a quoted scalar, from its opening quote, and the place after it. -/
def quotedScalar (quote : Char) (k : Cursor) : Option (List Char × Cursor) :=
  quotedScalarFrom quote (k.rest.length + 1) [] k.skip

/-! ## Block scalars -/

/-- What becomes of the line ends at the end of a block. -/
inductive Chomping where
  | strip
  | clip
  | keep
  deriving DecidableEq, Repr

def chomping? : Char → Option Chomping
  | '+' => some .keep
  | '-' => some .strip
  | _ => none

/-- The marks in the head of a block: chomping and a digit for the indentation, in either order. -/
def blockMarks (k : Cursor) : Option (Chomping × Option Nat × Cursor) :=
  let digit? (c : Char) : Option Nat := if c.isDigit then some (c.toNat - '0'.toNat) else none
  match k.peek with
  | none => some (.clip, none, k)
  | some c =>
    match chomping? c, digit? c with
    | some chomping, _ =>
      match (k.peek 1).bind digit? with
      | some 0 => none
      | some n => some (chomping, some n, k.skip 2)
      | none => some (chomping, none, k.skip)
    | none, some 0 => none
    | none, some n =>
      match (k.peek 1).bind chomping? with
      | some chomping => some (chomping, some n, k.skip 2)
      | none => some (.clip, some n, k.skip)
    | none, none => some (.clip, none, k)

/-- The empty lines from here on, the greatest column reached in them, and the place after the
indentation of the next line. Without a given indentation all leading spaces are taken; a tab among
them is refused. -/
def blockBreaks (indent : Option Nat) :
    Nat → List Char → Nat → Cursor → Option (List Char × Nat × Cursor)
  | 0, breaks, reached, k => some (breaks, reached, k)
  | fuel + 1, breaks, reached, k =>
    let spaces := (k.rest.takeWhile (· = ' ')).length
    let k' := k.skip (match indent with
      | some n => min spaces (n - k.column)
      | none => spaces)
    let reached' := max reached k'.column
    let inIndent := match indent with
      | some n => decide (k'.column < n)
      | none => true
    if inIndent && k'.sees '\t' then none
    else if k'.seesAny isBreak then
      let (ended, k'') := k'.takeBreak
      blockBreaks indent fuel (breaks ++ ended) reached' k''
    else some (breaks, reached', k')

/-- The lines of a block: the text so far, the last line end, the empty lines after it, and whether
the last line started with a blank. -/
structure BlockText where
  text : List Char := []
  lastBreak : List Char := []
  emptyLines : List Char := []
  blankStart : Bool := false

/-- The lines of a block with the given indentation. -/
def blockLines (style : ScalarStyle) (indent : Nat) :
    Nat → BlockText → Cursor → Option (BlockText × Cursor)
  | 0, block, k => some (block, k)
  | fuel + 1, block, k =>
    if k.column = indent && !k.rest.isEmpty then
      let blank := k.seesAny isBlank
      let joint :=
        if style = .folded && block.lastBreak = ['\n'] && !block.blankStart && !blank then
          if block.emptyLines = [] then [' '] else []
        else block.lastBreak
      let (line, k') := k.takeWhile (!isBreak ·)
      let (ended, k'') := k'.takeBreak
      match blockBreaks (some indent) (k''.rest.length + 1) [] 0 k'' with
      | none => none
      | some (breaks, _, k''') =>
        blockLines style indent fuel
          { text := block.text ++ joint ++ block.emptyLines ++ line
            lastBreak := ended
            emptyLines := breaks
            blankStart := blank } k'''
    else some (block, k)

/-- The text of a block scalar, from its mark, inside a block whose entries start at column
`outer` (`-1` outside of all), and the place after it. -/
def blockScalar (style : ScalarStyle) (outer : Int) (k : Cursor) :
    Option (List Char × Cursor) := do
  let (chomping, increment, k) ← blockMarks k.skip
  let k := k.skipWhile isBlank
  let k := if k.sees '#' then k.skipWhile (!isBreak ·) else k
  guard k.atLineEnd
  let k := k.skipBreak
  let given := increment.map fun n => if 0 ≤ outer then outer.toNat + n else n
  let (breaks, reached, k) ← blockBreaks given (k.rest.length + 1) [] 0 k
  let indent := given.getD (max reached (max (outer + 1).toNat 1))
  let (block, k) ← blockLines style indent (k.rest.length + 1) { emptyLines := breaks } k
  let tail := match chomping with
    | .strip => []
    | .clip => block.lastBreak
    | .keep => block.lastBreak ++ block.emptyLines
  return (block.text ++ tail, k)

end RpcCatalog.Yaml
