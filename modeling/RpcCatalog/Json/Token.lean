import RpcCatalog.Json.Escape

/-!
# JSON tokens

A JSON text as a row of tokens. Strings and numbers keep their written form.
-/

set_option autoImplicit false

namespace RpcCatalog.Json

/-- A token of a JSON text. -/
inductive Token where
  | openList
  | closeList
  | openObject
  | closeObject
  | comma
  | colon
  | null
  | bool (value : Bool)
  | number (written : List Char)
  | string (written : List Char)
  deriving DecidableEq, Repr

def isSpace (c : Char) : Bool := c = ' ' || c = '\n' || c = '\t' || c = '\r'

/-- The digits at the front of a text, and what follows them; at least one is needed. -/
def someDigits? (s : List Char) : Option (List Char × List Char) :=
  match s.takeWhile Char.isDigit with
  | [] => none
  | digits => some (digits, s.dropWhile Char.isDigit)

/-- A whole number without a sign: no digit follows a leading zero. -/
def splitWhole? : List Char → Option (List Char × List Char)
  | '0' :: rest => some (['0'], rest)
  | s => someDigits? s

/-- The fraction at the front of a text, if one is there. -/
def splitFraction? : List Char → Option (List Char × List Char)
  | '.' :: rest => (someDigits? rest).map fun (t, r) => ('.' :: t, r)
  | s => some ([], s)

/-- The exponent at the front of a text, if one is there. -/
def splitExponent? : List Char → Option (List Char × List Char)
  | e :: sign :: rest =>
    if e = 'e' || e = 'E' then
      if sign = '+' || sign = '-' then
        (someDigits? rest).map fun (t, r) => (e :: sign :: t, r)
      else (someDigits? (sign :: rest)).map fun (t, r) => (e :: t, r)
    else some ([], e :: sign :: rest)
  | [e] => if e = 'e' || e = 'E' then none else some ([], [e])
  | [] => some ([], [])

/-- The minus sign at the front of a text, if one is there. -/
def splitSign : List Char → List Char × List Char
  | '-' :: rest => (['-'], rest)
  | s => ([], s)

/-- The number at the front of a text, and what follows it. -/
def splitNumber? (s : List Char) : Option (List Char × List Char) := do
  let (sign, s) := splitSign s
  let (whole, s) ← splitWhole? s
  let (fraction, s) ← splitFraction? s
  let (exponent, s) ← splitExponent? s
  return (sign ++ whole ++ fraction ++ exponent, s)

/-- The token at the front of a text without leading white space, and what follows it. -/
def splitToken? : List Char → Option (Token × List Char)
  | '[' :: rest => some (.openList, rest)
  | ']' :: rest => some (.closeList, rest)
  | '\x7b' :: rest => some (.openObject, rest)
  | '\x7d' :: rest => some (.closeObject, rest)
  | ',' :: rest => some (.comma, rest)
  | ':' :: rest => some (.colon, rest)
  | 'n' :: 'u' :: 'l' :: 'l' :: rest => some (.null, rest)
  | 't' :: 'r' :: 'u' :: 'e' :: rest => some (.bool true, rest)
  | 'f' :: 'a' :: 'l' :: 's' :: 'e' :: rest => some (.bool false, rest)
  | '"' :: rest => (splitString? rest).map fun (t, r) => (.string t, r)
  | s => (splitNumber? s).map fun (t, r) => (.number t, r)

/-! ## Each token takes a character at least -/

theorem length_someDigits?_lt {s t r : List Char} (h : someDigits? s = some (t, r)) :
    r.length < s.length := by
  unfold someDigits? at h
  split at h
  · simp at h
  · rename_i digits hd
    obtain ⟨-, rfl⟩ := by simpa using h
    have split := congrArg List.length (List.takeWhile_append_dropWhile (p := Char.isDigit) (l := s))
    have : 0 < (s.takeWhile Char.isDigit).length := List.length_pos_iff.2 hd
    rw [List.length_append] at split
    omega

theorem length_splitWhole?_lt {s t r : List Char} (h : splitWhole? s = some (t, r)) :
    r.length < s.length := by
  unfold splitWhole? at h
  split at h
  · obtain ⟨-, rfl⟩ := by simpa using h
    simp
  · exact length_someDigits?_lt h

theorem length_splitFraction?_le {s t r : List Char} (h : splitFraction? s = some (t, r)) :
    r.length ≤ s.length := by
  unfold splitFraction? at h
  split at h
  · obtain ⟨⟨t', r'⟩, hu, he⟩ := Option.map_eq_some_iff.1 h
    obtain ⟨-, rfl⟩ := by simpa using he
    have := length_someDigits?_lt hu
    simp only [List.length_cons]
    omega
  · obtain ⟨-, rfl⟩ := by simpa using h
    exact Nat.le_refl _

theorem length_splitExponent?_le {s t r : List Char} (h : splitExponent? s = some (t, r)) :
    r.length ≤ s.length := by
  unfold splitExponent? at h
  split at h
  · split at h
    · split at h <;>
      · obtain ⟨⟨t', r'⟩, hu, he⟩ := Option.map_eq_some_iff.1 h
        obtain ⟨-, rfl⟩ := by simpa using he
        have := length_someDigits?_lt hu
        simp only [List.length_cons] at this ⊢
        omega
    · obtain ⟨-, rfl⟩ := by simpa using h
      exact Nat.le_refl _
  · split at h
    · simp at h
    · obtain ⟨-, rfl⟩ := by simpa using h
      exact Nat.le_refl _
  · obtain ⟨-, rfl⟩ := by simpa using h
    exact Nat.le_refl _

theorem length_splitSign_le (s : List Char) : (splitSign s).2.length ≤ s.length := by
  unfold splitSign
  split <;> simp

theorem length_splitNumber?_lt {s t r : List Char} (h : splitNumber? s = some (t, r)) :
    r.length < s.length := by
  simp only [splitNumber?, bind, Option.bind_eq_some_iff] at h
  obtain ⟨⟨whole, u⟩, hu, ⟨fraction, v⟩, hv, ⟨exponent, w⟩, hw, he⟩ := h
  obtain ⟨-, rfl⟩ := by simpa [pure] using he
  have hs := length_splitSign_le s
  have hu := length_splitWhole?_lt hu
  have hv := length_splitFraction?_le hv
  have hw := length_splitExponent?_le hw
  exact Nat.lt_of_le_of_lt (Nat.le_trans hw hv) (Nat.lt_of_lt_of_le hu hs)

theorem length_splitToken?_lt {s r : List Char} {token : Token}
    (h : splitToken? s = some (token, r)) : r.length < s.length := by
  unfold splitToken? at h
  split at h
  case h_10 =>
    obtain ⟨⟨t, r'⟩, hu, he⟩ := Option.map_eq_some_iff.1 h
    obtain ⟨-, rfl⟩ := by simpa using he
    have := length_splitString?_lt hu
    simp only [List.length_cons]
    omega
  case h_11 =>
    obtain ⟨⟨t, r'⟩, hu, he⟩ := Option.map_eq_some_iff.1 h
    obtain ⟨-, rfl⟩ := by simpa using he
    exact length_splitNumber?_lt hu
  all_goals
    obtain ⟨-, rfl⟩ := by simpa using h
    simp only [List.length_cons]
    omega

theorem length_splitToken?_lt_of_dropWhile {s u r : List Char} {token : Token}
    (hu : s.dropWhile isSpace = u) (h : splitToken? u = some (token, r)) :
    r.length < s.length := by
  have := length_splitToken?_lt h
  have : (s.dropWhile isSpace).length ≤ s.length := (List.dropWhile_sublist isSpace).length_le
  rw [hu] at this
  omega

/-- The tokens of a text, unless it holds something else. -/
def tokens? (s : List Char) : Option (List Token) :=
  match _ : s.dropWhile isSpace with
  | [] => some []
  | c :: rest =>
    match _ : splitToken? (c :: rest) with
    | none => none
    | some (token, r) => (tokens? r).map (token :: ·)
termination_by s.length
decreasing_by
  exact length_splitToken?_lt_of_dropWhile ‹s.dropWhile isSpace = _› ‹splitToken? _ = _›

end RpcCatalog.Json
