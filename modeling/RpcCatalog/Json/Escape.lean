/-!
# JSON strings

Texts as they are written between the quotes of a JSON string.

* `escape`: the written form of a text.
* `unescape?`: the text of a written form.
* `splitString?`: the written form at the front of a text, up to its closing quote.
-/

set_option autoImplicit false

namespace RpcCatalog.Json

def hexDigit (n : Nat) : Char :=
  if n < 10 then Char.ofNat ('0'.toNat + n) else Char.ofNat ('a'.toNat + (n - 10))

def hexValue? (c : Char) : Option Nat :=
  if '0' ≤ c && c ≤ '9' then some (c.toNat - '0'.toNat)
  else if 'a' ≤ c && c ≤ 'f' then some (c.toNat - 'a'.toNat + 10)
  else if 'A' ≤ c && c ≤ 'F' then some (c.toNat - 'A'.toNat + 10)
  else none

/-- A character as it is written in a string. Only quotes, backslashes and controls need an
escape. -/
def escapeChar (c : Char) : List Char :=
  if c = '"' then ['\\', '"']
  else if c = '\\' then ['\\', '\\']
  else if c = '\x08' then ['\\', 'b']
  else if c = '\x0c' then ['\\', 'f']
  else if c = '\n' then ['\\', 'n']
  else if c = '\r' then ['\\', 'r']
  else if c = '\t' then ['\\', 't']
  else if c < ' ' then ['\\', 'u', '0', '0', hexDigit (c.toNat / 16), hexDigit (c.toNat % 16)]
  else [c]

def escape (text : List Char) : List Char := text.flatMap escapeChar

def letterEscape? : Char → Option Char
  | '"' => some '"'
  | '\\' => some '\\'
  | '/' => some '/'
  | 'b' => some '\x08'
  | 'f' => some '\x0c'
  | 'n' => some '\n'
  | 'r' => some '\r'
  | 't' => some '\t'
  | _ => none

def hexUnit? (a b c d : Char) : Option Nat := do
  return (((← hexValue? a) * 16 + (← hexValue? b)) * 16 + (← hexValue? c)) * 16 + (← hexValue? d)

/-- Whether a unit is the first of a surrogate pair. -/
def isLeading (unit : Nat) : Bool := 0xD800 ≤ unit && unit < 0xDC00

/-- Whether a unit is the second of a surrogate pair. -/
def isTrailing (unit : Nat) : Bool := 0xDC00 ≤ unit && unit < 0xE000

def pairChar (leading trailing : Nat) : Char :=
  Char.ofNat (0x10000 + (leading - 0xD800) * 0x400 + (trailing - 0xDC00))

/-- The text of a written form, where every escape names a character. Surrogates have to come in
pairs. -/
def unescape? : List Char → Option (List Char)
  | [] => some []
  | '\\' :: 'u' :: a :: b :: c :: d :: rest =>
    match hexUnit? a b c d with
    | none => none
    | some unit =>
      if isLeading unit then
        match rest with
        | '\\' :: 'u' :: a' :: b' :: c' :: d' :: rest' =>
          match hexUnit? a' b' c' d' with
          | none => none
          | some unit' =>
            if isTrailing unit' then (unescape? rest').map (pairChar unit unit' :: ·) else none
        | _ => none
      else if isTrailing unit then none
      else (unescape? rest).map (Char.ofNat unit :: ·)
  | '\\' :: letter :: rest =>
    match letterEscape? letter with
    | some c => (unescape? rest).map (c :: ·)
    | none => none
  | c :: rest => if c = '\\' then none else (unescape? rest).map (c :: ·)

/-- The written form up to a closing quote, and what follows the quote. Controls are refused, and
so are escapes of another form; which characters the escapes name is left open. -/
def splitString? : List Char → Option (List Char × List Char)
  | [] => none
  | '"' :: rest => some ([], rest)
  | '\\' :: 'u' :: a :: b :: c :: d :: rest =>
    match hexUnit? a b c d with
    | some _ => (splitString? rest).map fun (t, r) => ('\\' :: 'u' :: a :: b :: c :: d :: t, r)
    | none => none
  | '\\' :: letter :: rest =>
    match letterEscape? letter with
    | some _ => (splitString? rest).map fun (t, r) => ('\\' :: letter :: t, r)
    | none => none
  | c :: rest =>
    if c < ' ' || c = '\\' then none else (splitString? rest).map fun (t, r) => (c :: t, r)

/-- The closing quote is taken off. -/
theorem length_splitString?_lt {s t r : List Char} (h : splitString? s = some (t, r)) :
    r.length < s.length := by
  fun_induction splitString? s generalizing t with
  | case1 => simp at h
  | case2 rest =>
    obtain ⟨rfl, rfl⟩ := by simpa using h
    simp
  | case3 a b c d rest n hn ih =>
    obtain ⟨⟨t', r'⟩, hu, he⟩ := Option.map_eq_some_iff.1 h
    obtain ⟨rfl, rfl⟩ := by simpa using he
    have := ih hu
    simp only [List.length_cons]
    omega
  | case4 => simp at h
  | case5 letter rest _ c hc ih =>
    obtain ⟨⟨t', r'⟩, hu, he⟩ := Option.map_eq_some_iff.1 h
    obtain ⟨rfl, rfl⟩ := by simpa using he
    have := ih hu
    simp only [List.length_cons]
    omega
  | case6 => simp at h
  | case7 => simp at h
  | case8 c rest _ _ _ hc ih =>
    obtain ⟨⟨t', r'⟩, hu, he⟩ := Option.map_eq_some_iff.1 h
    obtain ⟨rfl, rfl⟩ := by simpa using he
    have := ih hu
    simp only [List.length_cons]
    omega

end RpcCatalog.Json
