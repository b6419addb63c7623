import RpcCatalog.Text.Split

/-!
# Lexemes

The tokens of interface files, as functions on the characters still to be read. A scan either
fails or splits the text into the lexeme at its front and what is left. Inside a lexeme no white
space is skipped.

* `Scan`: a way to split a lexeme off the front of a text.
* Comments: `docComment`, `blockComment`, `lineComment`.
* Names: `name`, `dottedName`, `typeName`, `optionName`, and words that no name may extend
  (`wholeWord`).
* Constants: `quotedText`, `number`, `signedName`.
* Opaque text: `body` (a balanced block) and `opaqueDeclaration`, both made of `chunk`s, so that
  braces inside strings and comments never count.
-/

set_option autoImplicit false

namespace RpcCatalog.Grammar

/-- A way to split a lexeme off the front of a text: the lexeme and what is left. -/
abbrev Scan := List Char → Option (List Char × List Char)

/-! ## Character classes -/

/-- White space between tokens: space, tab, the two line end characters and the byte order mark. -/
def isBlank (c : Char) : Bool :=
  c = ' ' || c = '\t' || c = '\r' || c = '\n' || c = '\uFEFF'

def isLineEnd (c : Char) : Bool := c = '\n' || c = '\r'

def isNameStart (c : Char) : Bool := c.isAlpha || c = '_'

def isNameChar (c : Char) : Bool := c.isAlphanum || c = '_'

/-- The characters that may follow the first digit or point of a number. -/
def isNumberChar (c : Char) : Bool := c.isAlphanum || c = '.' || c = '_'

def skipBlanks (s : List Char) : List Char := s.dropWhile isBlank

/-! ## Fixed words -/

def atWordEnd : List Char → Bool
  | [] => true
  | c :: _ => !isNameChar c

/-- `word`, where no name continues it. -/
def wholeWord (word : List Char) : Scan := fun s =>
  match Text.afterPrefix word s with
  | some r => if atWordEnd r then some (word, r) else none
  | none => none

/-- `first` where it matches, else `second`. -/
def orElse (first second : Scan) : Scan := fun s =>
  match first s with
  | some split => some split
  | none => second s

/-! ## Names -/

/-- A letter or underscore and the name characters after it. -/
def name : Scan
  | [] => none
  | c :: s =>
    if isNameStart c then some (c :: s.takeWhile isNameChar, s.dropWhile isNameChar) else none

/-- The longest continuation `.part.part…` of a dotted text, `fuel` parts at most. -/
def dottedTail (part : Scan) : Nat → List Char → List Char × List Char
  | 0, s => ([], s)
  | fuel + 1, s =>
    match s with
    | '.' :: s' =>
      match part s' with
      | some (p, r) =>
        let (tail, r') := dottedTail part fuel r
        ('.' :: p ++ tail, r')
      | none => ([], s)
    | _ => ([], s)

/-- Parts joined by single dots; every dot starts a further part, so the text bounds their
number. -/
def dotted (part : Scan) : Scan := fun s =>
  match part s with
  | some (p, r) =>
    let (tail, r') := dottedTail part r.length r
    some (p ++ tail, r')
  | none => none

def dottedName : Scan := dotted name

/-- A dotted name, with a dot in front if it is absolute. -/
def typeName : Scan
  | '.' :: s => (dottedName s).map fun (t, r) => ('.' :: t, r)
  | s => dottedName s

/-- A type name in parentheses, as extension options are written. -/
def extensionName : Scan
  | '(' :: s =>
    match typeName s with
    | some (t, ')' :: r) => some ('(' :: t ++ [')'], r)
    | _ => none
  | _ => none

def optionName : Scan := dotted (orElse extensionName name)

/-! ## Comments -/

/-- The text up to and including the first `*/`, and what is left. -/
def throughCommentEnd : Scan
  | [] => none
  | '*' :: '/' :: r => some (['*', '/'], r)
  | c :: s => (throughCommentEnd s).map fun (t, r) => (c :: t, r)

/-- `/*` and the text through the first `*/` after it. -/
def blockComment : Scan
  | '/' :: '*' :: s => (throughCommentEnd s).map fun (t, r) => ('/' :: '*' :: t, r)
  | _ => none

/-- `/**` and the text through the first `*/` after it. -/
def docComment : Scan
  | '/' :: '*' :: '*' :: s => (throughCommentEnd s).map fun (t, r) => ('/' :: '*' :: '*' :: t, r)
  | _ => none

/-- `//` and the rest of the line, without its end. -/
def lineComment : Scan
  | '/' :: '/' :: s =>
    some ('/' :: '/' :: s.takeWhile (!isLineEnd ·), s.dropWhile (!isLineEnd ·))
  | _ => none

/-! ## Constants -/

/-- The text of a literal up to and including its closing quote. A backslash takes the next
character with it, whatever that is; an end of line that no backslash takes leaves the literal
unclosed. -/
def throughQuote (quote : Char) : Scan
  | [] => none
  | '\\' :: c :: s => (throughQuote quote s).map fun (t, r) => ('\\' :: c :: t, r)
  | c :: s =>
    if c = quote then some ([c], s)
    else if c = '\\' || isLineEnd c then none
    else (throughQuote quote s).map fun (t, r) => (c :: t, r)

/-- A literal in double or single quotes, with its quotes. -/
def quotedText : Scan
  | '"' :: s => (throughQuote '"' s).map fun (t, r) => ('"' :: t, r)
  | '\'' :: s => (throughQuote '\'' s).map fun (t, r) => ('\'' :: t, r)
  | _ => none

/-- A digit or point and the number characters after it. -/
def unsignedNumber : Scan
  | [] => none
  | c :: s =>
    if c.isDigit || c = '.' then
      some (c :: s.takeWhile isNumberChar, s.dropWhile isNumberChar)
    else none

/-- A scan with an optional or required sign in front. -/
def signed (required : Bool) (scan : Scan) : Scan
  | '-' :: s => (scan s).map fun (t, r) => ('-' :: t, r)
  | '+' :: s => (scan s).map fun (t, r) => ('+' :: t, r)
  | s => if required then none else scan s

def number : Scan := signed false unsignedNumber

/-- A name with a sign, such as `-inf`. -/
def signedName : Scan := signed true name

/-! ## Opaque text -/

/-- The unit of opaque text that starts with `c`: a closed literal, a comment, or `c` alone. -/
def chunk (c : Char) (s : List Char) : List Char × List Char :=
  match orElse quotedText (orElse lineComment blockComment) (c :: s) with
  | some split => split
  | none => ([c], s)

/-- A scan that, where it succeeds, cuts the text in two and takes at least one character. -/
def Splits (scan : Scan) : Prop :=
  ∀ ⦃s t r : List Char⦄, scan s = some (t, r) → t ++ r = s ∧ t ≠ []

theorem orElse_splits {first second : Scan} (h₁ : Splits first) (h₂ : Splits second) :
    Splits (orElse first second) := by
  intro s t r h
  unfold orElse at h
  split at h
  · next hs => cases h; exact h₁ hs
  · exact h₂ h

theorem throughCommentEnd_splits : Splits throughCommentEnd := by
  intro s t r h
  fun_induction throughCommentEnd s generalizing t with
  | case1 => simp at h
  | case2 r' => cases h; simp
  | case3 c s' _ ih =>
    obtain ⟨⟨t', r'⟩, ht, hr⟩ := Option.map_eq_some_iff.1 h
    cases hr
    simp [(ih ht).1]

theorem throughQuote_splits (quote : Char) : Splits (throughQuote quote) := by
  intro s t r h
  fun_induction throughQuote quote s generalizing t with
  | case1 => simp at h
  | case2 c s' ih =>
    obtain ⟨⟨t', r'⟩, ht, hr⟩ := Option.map_eq_some_iff.1 h
    cases hr
    simp [(ih ht).1]
  | case3 => cases h; simp
  | case4 => simp at h
  | case5 c s' _ _ _ ih =>
    obtain ⟨⟨t', r'⟩, ht, hr⟩ := Option.map_eq_some_iff.1 h
    cases hr
    simp [(ih ht).1]

theorem blockComment_splits : Splits blockComment := by
  intro s t r h
  unfold blockComment at h
  split at h
  · obtain ⟨⟨t', r'⟩, ht, hr⟩ := Option.map_eq_some_iff.1 h
    cases hr
    simp [(throughCommentEnd_splits ht).1]
  · simp at h

theorem lineComment_splits : Splits lineComment := by
  intro s t r h
  unfold lineComment at h
  split at h
  · cases h
    simp
  · simp at h

theorem quotedText_splits : Splits quotedText := by
  intro s t r h
  unfold quotedText at h
  split at h
  · obtain ⟨⟨t', r'⟩, ht, hr⟩ := Option.map_eq_some_iff.1 h
    cases hr
    simp [(throughQuote_splits '"' ht).1]
  · obtain ⟨⟨t', r'⟩, ht, hr⟩ := Option.map_eq_some_iff.1 h
    cases hr
    simp [(throughQuote_splits '\'' ht).1]
  · simp at h

/-- A chunk and what is left are the text it was taken from. -/
theorem chunk_append (c : Char) (s : List Char) : (chunk c s).1 ++ (chunk c s).2 = c :: s := by
  unfold chunk
  split
  · next split h =>
    exact (orElse_splits quotedText_splits
      (orElse_splits lineComment_splits blockComment_splits) h).1
  · rfl

/-- A chunk holds at least one character. -/
theorem chunk_ne_nil (c : Char) (s : List Char) : (chunk c s).1 ≠ [] := by
  unfold chunk
  split
  · next split h =>
    exact (orElse_splits quotedText_splits
      (orElse_splits lineComment_splits blockComment_splits) h).2
  · simp

/-- So taking chunks off a text ends. -/
theorem length_chunk_le (c : Char) (s : List Char) : (chunk c s).2.length ≤ s.length := by
  have h := congrArg List.length (chunk_append c s)
  have h' := List.length_pos_iff.2 (chunk_ne_nil c s)
  simp only [List.length_append, List.length_cons] at h
  omega

/-- The text through the brace that closes `depth + 1` open ones. -/
def throughClose (depth : Nat) (s : List Char) : Option (List Char × List Char) :=
  match s with
  | [] => none
  | '}' :: s' =>
    match depth with
    | 0 => some (['}'], s')
    | depth' + 1 => (throughClose depth' s').map fun (t, r) => ('}' :: t, r)
  | '{' :: s' => (throughClose (depth + 1) s').map fun (t, r) => ('{' :: t, r)
  | c :: s' =>
    have := length_chunk_le c s'
    (throughClose depth (chunk c s').2).map fun (t, r) => ((chunk c s').1 ++ t, r)
termination_by s.length
decreasing_by all_goals simp only [List.length_cons]; omega

/-- A block in braces, in which all braces outside literals and comments are balanced. -/
def body : Scan
  | '{' :: s => (throughClose 0 s).map fun (t, r) => ('{' :: t, r)
  | _ => none

/-- The longest run of chunks that start with neither a brace nor a semicolon. -/
def opaqueRun (s : List Char) : List Char × List Char :=
  match s with
  | [] => ([], [])
  | c :: s' =>
    if c = '{' || c = '}' || c = ';' then ([], c :: s')
    else
      have := length_chunk_le c s'
      let (t, r) := opaqueRun (chunk c s').2
      ((chunk c s').1 ++ t, r)
termination_by s.length
decreasing_by simp only [List.length_cons]; omega

/-- Any other declaration: a non-empty opaque run, ended by a semicolon or by a block. -/
def opaqueDeclaration : Scan := fun s =>
  match opaqueRun s with
  | ([], _) => none
  | (run, ';' :: r) => some (run ++ [';'], r)
  | (run, r) => (body r).map fun (t, r') => (run ++ t, r')

end RpcCatalog.Grammar
