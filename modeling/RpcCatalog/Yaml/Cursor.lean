/-!
# Cursors

A place in a YAML text: the characters still to be read, and where they begin. Columns count
characters from the start of the line, so they measure indentation; the offset counts bytes.
-/

set_option autoImplicit false

namespace RpcCatalog.Yaml

def isBreak (c : Char) : Bool :=
  c = '\n' || c = '\r' || c = '\u0085' || c = '\u2028' || c = '\u2029'

def isBlank (c : Char) : Bool := c = ' ' || c = '\t'

/-- The characters of anchors, tag handles and directive names. -/
def isWordChar (c : Char) : Bool := c.isAlphanum || c = '_' || c = '-'

/-- The number of bytes that characters take in UTF-8. -/
def byteCount (text : List Char) : Nat := text.foldl (fun bytes c => bytes + c.utf8Size) 0

/-- A place in a text. -/
structure Cursor where
  rest : List Char
  offset : Nat := 0
  line : Nat := 0
  column : Nat := 0

namespace Cursor

/-- The character `n` places ahead. -/
def peek (k : Cursor) (n : Nat := 0) : Option Char := k.rest[n]?

/-- Whether `c` is `n` places ahead. -/
def sees (k : Cursor) (c : Char) (n : Nat := 0) : Bool := k.peek n = some c

/-- Whether a character of a class is `n` places ahead. -/
def seesAny (k : Cursor) (p : Char → Bool) (n : Nat := 0) : Bool := (k.peek n).any p

/-- Whether the text ends `n` places ahead, or a blank or line end is there. -/
def atGap (k : Cursor) (n : Nat := 0) : Bool :=
  match k.peek n with
  | some c => isBlank c || isBreak c
  | none => true

def atLineEnd (k : Cursor) : Bool :=
  match k.peek with
  | some c => isBreak c
  | none => true

/-- The place after `n` characters of a line. -/
def skip (k : Cursor) (n : Nat := 1) : Cursor :=
  { k with
    rest := k.rest.drop n
    offset := k.offset + byteCount (k.rest.take n)
    column := k.column + n }

/-- The characters of a class from here on in this line, and the place after them. -/
def takeWhile (k : Cursor) (p : Char → Bool) : List Char × Cursor :=
  let taken := k.rest.takeWhile p
  (taken, k.skip taken.length)

/-- The place after the characters of a class from here on in this line. -/
def skipWhile (k : Cursor) (p : Char → Bool) : Cursor := (k.takeWhile p).2

/-- The line end here as a text has it, and the start of the next line. The ends `\r`, `\r\n` and
`U+0085` are all read as a line feed. -/
def takeBreak (k : Cursor) : List Char × Cursor :=
  match k.rest with
  | '\r' :: '\n' :: rest => (['\n'], ⟨rest, k.offset + 2, k.line + 1, 0⟩)
  | c :: rest =>
    if c = '\u2028' || c = '\u2029' then ([c], ⟨rest, k.offset + c.utf8Size, k.line + 1, 0⟩)
    else if isBreak c then (['\n'], ⟨rest, k.offset + c.utf8Size, k.line + 1, 0⟩)
    else ([], k)
  | [] => ([], k)

def skipBreak (k : Cursor) : Cursor := k.takeBreak.2

/-- Whether a line of three equal marks begins here, as they separate documents. -/
def seesDocumentMark (k : Cursor) (mark : Char) : Bool :=
  k.column = 0 && k.sees mark && k.sees mark 1 && k.sees mark 2 && k.atGap 3

def atDocumentMark (k : Cursor) : Bool := k.seesDocumentMark '-' || k.seesDocumentMark '.'

end Cursor

end RpcCatalog.Yaml
