import RpcCatalog.Yaml.Scalar

/-!
# Tokens

A YAML text as a row of tokens. Indentation is made explicit by tokens that open and close blocks,
and the key of a mapping gets its token once the colon after it shows that it is one.

* `Scanner`: the state between two tokens.
* `Scanner.scanToken`: one step.
* `tokens?`: all tokens of a text, unless it is malformed.
-/

set_option autoImplicit false

namespace RpcCatalog.Yaml

/-- A token of a YAML text. -/
inductive Token where
  | streamEnd
  | versionDirective (major minor : Nat)
  | tagDirective (handle start : List Char)
  | documentStart
  | documentEnd
  | blockSequenceStart
  | blockMappingStart
  | blockEnd
  | flowSequenceStart
  | flowSequenceEnd
  | flowMappingStart
  | flowMappingEnd
  | blockEntry
  | flowEntry
  | key
  | value
  | reference (name : List Char)
  | anchor (name : List Char)
  | tag (handle suffix : List Char)
  | scalar (style : ScalarStyle) (text : List Char)
  deriving DecidableEq, Repr

/-- A place where the key of a mapping may have begun. -/
structure PossibleKey where
  required : Bool
  position : Nat
  offset : Nat
  line : Nat
  column : Nat

/-- The state between two tokens. -/
structure Scanner where
  cursor : Cursor
  tokens : Array Token := #[]
  /-- The column of the innermost open block, `-1` outside of all. -/
  indent : Int := -1
  indents : List Int := []
  keyAllowed : Bool := true
  /-- The possible key of each open bracket, the innermost first, and of the block around all. -/
  keys : List (Option PossibleKey) := [none]

namespace Scanner

def inFlow (s : Scanner) : Bool := 1 < s.keys.length

def push (s : Scanner) (token : Token) : Scanner := { s with tokens := s.tokens.push token }

/-- The state with the cursor `n` characters further on. -/
def skip (s : Scanner) (n : Nat := 1) : Scanner := { s with cursor := s.cursor.skip n }

/-! ## Keys -/

/-- How many bytes after the start of a key its colon may be. -/
def keyLengthLimit : Nat := 1024

/-- Drops the keys that can no longer be followed by their colon; a required one is an error. -/
def dropStaleKeys (s : Scanner) : Option Scanner := do
  let keys ← s.keys.mapM fun
    | none => some none
    | some key =>
      if key.line < s.cursor.line || key.offset + keyLengthLimit < s.cursor.offset then
        if key.required then none else some none
      else some (some key)
  return { s with keys }

/-- Gives up the innermost possible key; a required one is an error. -/
def removeKey (s : Scanner) : Option Scanner :=
  match s.keys with
  | some key :: keys => if key.required then none else some { s with keys := none :: keys }
  | _ => some s

def saveKey (s : Scanner) : Option Scanner :=
  if s.keyAllowed then do
    let s ← s.removeKey
    let key : PossibleKey :=
      { required := !s.inFlow && s.indent = s.cursor.column
        position := s.tokens.size
        offset := s.cursor.offset
        line := s.cursor.line
        column := s.cursor.column }
    return { s with keys := some key :: s.keys.tail }
  else some s

/-! ## Indentation -/

/-- Opens a block at a column that is further in, with its token at a position among the others. -/
def openBlock (s : Scanner) (column position : Nat) (token : Token) : Scanner :=
  if !s.inFlow && s.indent < column then
    { s with
      indents := s.indent :: s.indents
      indent := column
      tokens := (s.tokens.extract 0 position).push token ++ s.tokens.extract position }
  else s

/-- Closes the blocks that begin right of a column; `outer` lists the columns around them. -/
def closeBlocks (column : Int) (tokens : Array Token) (indent : Int) :
    List Int → Array Token × Int × List Int
  | [] => (tokens, indent, [])
  | outer :: indents =>
    if column < indent then closeBlocks column (tokens.push .blockEnd) outer indents
    else (tokens, indent, outer :: indents)

/-- Closes the blocks that begin right of a column, except inside brackets. -/
def unroll (s : Scanner) (column : Int) : Scanner :=
  if s.inFlow then s
  else
    let (tokens, indent, indents) := closeBlocks column s.tokens s.indent s.indents
    { s with tokens, indent, indents }

/-! ## White space between tokens -/

/-- The place of the next token, and whether a key may begin there. A byte order mark may stand at
the start of each line; it takes a column as any character does. -/
def toNextToken (inFlow : Bool) : Nat → Bool → Cursor → Bool × Cursor
  | 0, allowed, k => (allowed, k)
  | fuel + 1, allowed, k =>
    let k := if k.column = 0 && k.sees '\uFEFF' then k.skip else k
    let k := k.skipWhile fun c => c = ' ' || ((inFlow || !allowed) && c = '\t')
    let k := if k.sees '#' then k.skipWhile (!isBreak ·) else k
    if k.seesAny isBreak then toNextToken inFlow fuel (allowed || !inFlow) k.skipBreak
    else (allowed, k)

/-! ## Directives and tags -/

def percentByte? (k : Cursor) : Option Nat :=
  match k.rest with
  | '%' :: a :: b :: _ => hexNumber? [a, b]
  | _ => none

/-- The number of bytes of a character whose first byte is given. -/
def byteWidth? (byte : Nat) : Option Nat :=
  if byte < 0x80 then some 1
  else if byte < 0xC0 then none
  else if byte < 0xE0 then some 2
  else if byte < 0xF0 then some 3
  else if byte < 0xF8 then some 4
  else none

/-- The place after `n` escaped continuation bytes. -/
def skipContinuation : Nat → Cursor → Option Cursor
  | 0, k => some k
  | n + 1, k => do
    let byte ← percentByte? k
    guard (0x80 ≤ byte && byte < 0xC0)
    skipContinuation n (k.skip 3)

/-- The character that percent escapes stand for, and the place after them. What is not ASCII is
kept as one mark; no known tag has it. -/
def percentChar? (k : Cursor) : Option (Char × Cursor) := do
  let byte ← percentByte? k
  let width ← byteWidth? byte
  let k ← skipContinuation (width - 1) (k.skip 3)
  return (if width = 1 then Char.ofNat byte else '\uFFFD', k)

/-- The characters of tags, beside percent escapes. Commas and brackets are among them only where a
tag is given in full. -/
def isTagChar (full : Bool) (c : Char) : Bool :=
  isWordChar c || ";/?:@&=+$.!~*'()".toList.contains c || (full && (c = ',' || c = '[' || c = ']'))

/-- The tag text from here on, and the place after it. -/
def tagText (full : Bool) : Nat → List Char → Cursor → Option (List Char × Cursor)
  | 0, text, k => some (text, k)
  | fuel + 1, text, k =>
    match k.peek with
    | none => some (text, k)
    | some c =>
      if c = '%' then
        match percentChar? k with
        | some (decoded, k') => tagText full fuel (text ++ [decoded]) k'
        | none => none
      else if isTagChar full c then tagText full fuel (text ++ [c]) k.skip
      else some (text, k)

/-- The part of a tag text that counts: it ends at the first NUL, which only an escape can bring
in. -/
def beforeNul (text : List Char) : List Char := text.takeWhile (· ≠ '\x00')

/-- A tag text that is not empty as it is written. -/
def fullTagText (full : Bool) (k : Cursor) : Option (List Char × Cursor) := do
  let (text, k) ← tagText full k.rest.length [] k
  guard (!text.isEmpty)
  return (beforeNul text, k)

/-- A tag handle: `!`, `!!`, or a word between two marks. Where no directive asks for a whole
handle, the second mark may be missing. -/
def tagHandle (directive : Bool) (k : Cursor) : Option (List Char × Cursor) := do
  guard (k.sees '!')
  let (word, k) := k.skip.takeWhile isWordChar
  if k.sees '!' then return ('!' :: word ++ ['!'], k.skip)
  guard (!directive || word.isEmpty)
  return ('!' :: word, k)

/-- The tag at a `!`, as handle and suffix, and the place after it. -/
def scanTag (inFlow : Bool) (k : Cursor) : Option (Token × Cursor) := do
  let (handle, suffix, k) ←
    if k.sees '<' 1 then do
      let (suffix, k) ← fullTagText true (k.skip 2)
      guard (k.sees '>')
      pure ([], suffix, k.skip)
    else do
      let (handle, k) ← tagHandle false k
      if 1 < handle.length && handle.getLast? = some '!' then do
        let (suffix, k) ← fullTagText false k
        pure (handle, suffix, k)
      else do
        let (more, k) ← tagText false k.rest.length [] k
        let suffix := beforeNul (handle.drop 1 ++ more)
        pure (if suffix.isEmpty then ([], ['!'], k) else (['!'], suffix, k))
  guard (k.atGap || (inFlow && k.sees ','))
  return (.tag handle suffix, k)

/-- A number of a version, of nine digits at most. -/
def versionNumber (k : Cursor) : Option (Nat × Cursor) := do
  let (digits, k) := k.takeWhile Char.isDigit
  guard (!digits.isEmpty && digits.length ≤ 9)
  return (digits.foldl (fun n c => n * 10 + (c.toNat - '0'.toNat)) 0, k)

/-- The directive at a `%`, and the start of the line after it. -/
def scanDirective (k : Cursor) : Option (Token × Cursor) := do
  let (word, k) := k.skip.takeWhile isWordChar
  guard (!word.isEmpty && k.atGap)
  let k := k.skipWhile isBlank
  let (token, k) ←
    if word = "YAML".toList then do
      let (major, k) ← versionNumber k
      guard (k.sees '.')
      let (minor, k) ← versionNumber k.skip
      pure (Token.versionDirective major minor, k)
    else if word = "TAG".toList then do
      let (handle, k) ← tagHandle true k
      guard (k.seesAny isBlank)
      let (start, k) ← fullTagText true (k.skipWhile isBlank)
      guard k.atGap
      pure (Token.tagDirective handle start, k)
    else none
  let k := k.skipWhile isBlank
  let k := if k.sees '#' then k.skipWhile (!isBreak ·) else k
  guard k.atLineEnd
  return (token, k.skipBreak)

/-- The name of an anchor or alias after its mark, and the place after it. -/
def scanAnchorName (k : Cursor) : Option (List Char × Cursor) := do
  let (word, k) := k.skip.takeWhile isWordChar
  guard (!word.isEmpty)
  guard (k.atGap || k.seesAny "?:,]\x7d%@`".toList.contains)
  return (word, k)

/-! ## One token -/

/-- Ends everything that is open, as the marks between documents do. -/
def endAll (s : Scanner) : Option Scanner := do
  let s ← (s.unroll (-1)).removeKey
  return { s with keyAllowed := false }

def scanStreamEnd (s : Scanner) : Option Scanner := do
  return (← s.endAll).push .streamEnd

def scanDocumentMark (s : Scanner) (token : Token) : Option Scanner := do
  return ((← s.endAll).push token).skip 3

def scanFlowStart (s : Scanner) (token : Token) : Option Scanner := do
  let s ← s.saveKey
  return ({ s with keys := none :: s.keys, keyAllowed := true }.push token).skip

def scanFlowEnd (s : Scanner) (token : Token) : Option Scanner := do
  let s ← s.removeKey
  let keys := match s.keys with
    | _ :: key :: keys => key :: keys
    | keys => keys
  return ({ s with keys, keyAllowed := false }.push token).skip

def scanFlowEntry (s : Scanner) : Option Scanner := do
  let s ← s.removeKey
  return ({ s with keyAllowed := true }.push .flowEntry).skip

def scanBlockEntry (s : Scanner) : Option Scanner := do
  guard (s.inFlow || s.keyAllowed)
  let s := s.openBlock s.cursor.column s.tokens.size .blockSequenceStart
  let s ← s.removeKey
  return ({ s with keyAllowed := true }.push .blockEntry).skip

def scanKey (s : Scanner) : Option Scanner := do
  guard (s.inFlow || s.keyAllowed)
  let s := s.openBlock s.cursor.column s.tokens.size .blockMappingStart
  let s ← s.removeKey
  return ({ s with keyAllowed := !s.inFlow }.push .key).skip

/-- The colon before a value. What may have been a key before it now is one. -/
def scanValue (s : Scanner) : Option Scanner :=
  match s.keys with
  | some key :: keys =>
    let withKey : Scanner :=
      { s with
        tokens := (s.tokens.extract 0 key.position).push .key ++ s.tokens.extract key.position
        keys := none :: keys
        keyAllowed := false }
    some ((withKey.openBlock key.column key.position .blockMappingStart).push .value).skip
  | _ => do
    guard (s.inFlow || s.keyAllowed)
    let s := s.openBlock s.cursor.column s.tokens.size .blockMappingStart
    return ({ s with keyAllowed := !s.inFlow }.push .value).skip

/-- A token that may begin a key, and the place after it. -/
def scanContent (s : Scanner) (scan : Cursor → Option (Token × Cursor)) : Option Scanner := do
  let s ← s.saveKey
  let (token, cursor) ← scan s.cursor
  return { s with cursor, keyAllowed := false }.push token

def scanBlockScalar (s : Scanner) (style : ScalarStyle) : Option Scanner := do
  let s ← s.removeKey
  let (text, cursor) ← blockScalar style s.indent s.cursor
  return { s with cursor, keyAllowed := true }.push (.scalar style text)

/-- A plain scalar; if lines end after it, a key may begin next. -/
def scanPlainScalar (s : Scanner) : Option Scanner := do
  let s ← s.saveKey
  let (text, broken, cursor) ← plainScalar s.inFlow (s.indent + 1).toNat s.cursor
  return { s with cursor, keyAllowed := broken }.push (.scalar .plain text)

def atPlainScalar (s : Scanner) : Bool :=
  let k := s.cursor
  match k.peek with
  | none => false
  | some c =>
    !(k.atGap || "-?:,[]\x7b\x7d#&*!|>'\"%@`".toList.contains c)
      || (c = '-' && !k.seesAny isBlank 1)
      || (!s.inFlow && (c = '?' || c = ':') && !k.atGap 1)

def scanToken (s : Scanner) : Option Scanner := do
  let (keyAllowed, cursor) := toNextToken s.inFlow (s.cursor.rest.length + 1) s.keyAllowed s.cursor
  let s ← { s with keyAllowed, cursor }.dropStaleKeys
  let s := s.unroll s.cursor.column
  let k := s.cursor
  match k.peek with
  | none => s.scanStreamEnd
  | some c =>
    if k.column = 0 && c = '%' then do
      let s ← s.endAll
      let (token, cursor) ← scanDirective k
      return { s with cursor }.push token
    else if k.seesDocumentMark '-' then s.scanDocumentMark .documentStart
    else if k.seesDocumentMark '.' then s.scanDocumentMark .documentEnd
    else if c = '[' then s.scanFlowStart .flowSequenceStart
    else if c = '{' then s.scanFlowStart .flowMappingStart
    else if c = ']' then s.scanFlowEnd .flowSequenceEnd
    else if c = '}' then s.scanFlowEnd .flowMappingEnd
    else if c = ',' then s.scanFlowEntry
    else if c = '-' && k.atGap 1 then s.scanBlockEntry
    else if c = '?' && (s.inFlow || k.atGap 1) then s.scanKey
    else if c = ':' && (s.inFlow || k.atGap 1) then s.scanValue
    else if c = '*' then
      s.scanContent fun k => (scanAnchorName k).map fun (name, k) => (.reference name, k)
    else if c = '&' then
      s.scanContent fun k => (scanAnchorName k).map fun (name, k) => (.anchor name, k)
    else if c = '!' then s.scanContent (scanTag s.inFlow)
    else if c = '|' && !s.inFlow then s.scanBlockScalar .literal
    else if c = '>' && !s.inFlow then s.scanBlockScalar .folded
    else if c = '\'' || c = '"' then
      s.scanContent fun k => (quotedScalar c k).map fun (text, k) => (.scalar .quoted text, k)
    else if s.atPlainScalar then s.scanPlainScalar
    else none

def scanAll : Nat → Scanner → Option (List Token)
  | 0, _ => none
  | fuel + 1, s => do
    let s ← s.scanToken
    if s.tokens.back? = some .streamEnd then return s.tokens.toList
    scanAll fuel s

end Scanner

def isAllowed (c : Char) : Bool :=
  c = '\t' || c = '\n' || c = '\r' || (' ' ≤ c && c ≤ '~') || c = '\u0085'
    || ('\u00A0' ≤ c && c ≤ '\uFFFD') || 0x10000 ≤ c.toNat

/-- The tokens of a text, unless it is malformed. Each token takes a character at least, so their
number is bounded by that of the characters. -/
def tokens? (text : List Char) : Option (List Token) :=
  if text.all isAllowed then Scanner.scanAll (text.length + 1) { cursor := { rest := text } }
  else none

end RpcCatalog.Yaml
