import RpcCatalog.Json.Value
import RpcCatalog.Proofs.Json.Escape

/-!
# Scanning tokens

What the scanner takes from the front of a text, put together token by token.

* `Json.splitNumber?_toDigits`, `Json.Value.digits?_toDigits`: decimal digits are a number, the one
  they were written for.
* `Json.Scans`: a text is scanned to a row of tokens, whatever follows it.
-/

set_option autoImplicit false

namespace RpcCatalog.Json

/-! ## Numbers -/

/-- No number goes on into the text. -/
def EndsNumber (rest : List Char) : Prop :=
  ∀ c ∈ rest.head?, c.isDigit = false ∧ c ≠ '.' ∧ c ≠ 'e' ∧ c ≠ 'E'

section Numbers

variable {rest : List Char}

theorem endsNumber_nil : EndsNumber [] := fun _ h => nomatch h

theorem endsNumber_cons {c : Char} (hdigit : c.isDigit = false) (hdot : c ≠ '.')
    (he : c ≠ 'e' ∧ c ≠ 'E') : EndsNumber (c :: rest) := by
  intro d hd
  obtain rfl := Option.some.inj hd
  exact ⟨hdigit, hdot, he⟩

theorem EndsNumber.append {text : List Char} (h : EndsNumber text) (hrest : EndsNumber rest) :
    EndsNumber (text ++ rest) := by
  cases text with
  | nil => exact hrest
  | cons c text => exact h

theorem splitFraction?_of_endsNumber (h : EndsNumber rest) :
    splitFraction? rest = some ([], rest) := by
  cases rest with
  | nil => rfl
  | cons c rest =>
    have hdot : c ≠ '.' := (h c rfl).2.1
    rw [splitFraction?]
    exact fun _ heq => hdot (List.cons.inj heq).1

theorem splitExponent?_of_endsNumber (h : EndsNumber rest) :
    splitExponent? rest = some ([], rest) := by
  cases rest with
  | nil => rfl
  | cons c rest =>
    have he : (decide (c = 'e') || decide (c = 'E')) = false := by
      simp [h c rfl]
    cases rest with
    | nil => simp only [splitExponent?, he]; rfl
    | cons d rest => simp only [splitExponent?, he]; rfl

theorem someDigits?_append {digits : List Char} (hdigits : ∀ c ∈ digits, c.isDigit)
    (hne : digits ≠ []) (h : EndsNumber rest) :
    someDigits? (digits ++ rest) = some (digits, rest) := by
  have htake : rest.takeWhile Char.isDigit = [] := by
    cases rest with
    | nil => rfl
    | cons c rest => exact List.takeWhile_cons_of_neg (by simp [h c rfl])
  have hdrop : rest.dropWhile Char.isDigit = rest := by
    cases rest with
    | nil => rfl
    | cons c rest => exact List.dropWhile_cons_of_neg (by simp [h c rfl])
  rw [someDigits?, List.takeWhile_append_of_pos hdigits, htake, List.append_nil,
    List.dropWhile_append_of_pos hdigits, hdrop]
  cases digits with
  | nil => exact absurd rfl hne
  | cons c digits => rfl

theorem isDigit_of_mem_toDigits {n : Nat} {c : Char} (h : c ∈ Nat.toDigits 10 n) : c.isDigit :=
  Nat.isDigit_of_mem_toDigits (by omega) (by omega) h

theorem exists_toDigits_isDigit (n : Nat) :
    ∃ c digits, Nat.toDigits 10 n = c :: digits ∧ c.isDigit := by
  obtain ⟨c, digits, hcons⟩ := List.exists_cons_of_ne_nil (@Nat.toDigits_ne_nil n 10)
  have hmem : c ∈ Nat.toDigits 10 n := by
    rw [hcons]
    exact List.mem_cons_self
  exact ⟨c, digits, hcons, isDigit_of_mem_toDigits hmem⟩

theorem digitChar_ne_zero : ∀ n < 10, 0 < n → n.digitChar ≠ '0' := by decide

theorem exists_toDigits_eq_cons (n : Nat) (h : 0 < n) :
    ∃ c digits, Nat.toDigits 10 n = c :: digits ∧ c ≠ '0' := by
  induction n using Nat.strongRecOn with
  | ind n ih =>
    by_cases hlt : n < 10
    · exact ⟨n.digitChar, [], Nat.toDigits_of_lt_base hlt, digitChar_ne_zero n hlt h⟩
    · obtain ⟨c, digits, hdigits, hne⟩ := ih (n / 10) (by omega) (by omega)
      refine ⟨c, digits ++ [(n % 10).digitChar], ?_, hne⟩
      rw [Nat.toDigits_of_base_le (by omega) (by omega), hdigits, List.cons_append]

theorem splitWhole?_toDigits (n : Nat) (h : EndsNumber rest) :
    splitWhole? (Nat.toDigits 10 n ++ rest) = some (Nat.toDigits 10 n, rest) := by
  obtain rfl | hpos := Nat.eq_zero_or_pos n
  · rfl
  · have hdigits : someDigits? (Nat.toDigits 10 n ++ rest) = some (Nat.toDigits 10 n, rest) :=
      someDigits?_append (fun _ => isDigit_of_mem_toDigits) Nat.toDigits_ne_nil h
    obtain ⟨c, digits, heq, hne⟩ := exists_toDigits_eq_cons n hpos
    rw [heq, List.cons_append] at hdigits ⊢
    rw [splitWhole?]
    · exact hdigits
    · exact fun _ hzero => hne (List.cons.inj hzero).1

theorem splitNumber?_toDigits (n : Nat) (h : EndsNumber rest) :
    splitNumber? (Nat.toDigits 10 n ++ rest) = some (Nat.toDigits 10 n, rest) := by
  have hsign : splitSign (Nat.toDigits 10 n ++ rest) = ([], Nat.toDigits 10 n ++ rest) := by
    obtain ⟨c, digits, hcons, hdigit⟩ := exists_toDigits_isDigit n
    rw [hcons, List.cons_append, splitSign]
    intro _ heq
    obtain ⟨rfl, -⟩ := List.cons.inj heq
    exact absurd hdigit (by decide)
  simp only [splitNumber?, hsign, splitWhole?_toDigits n h, splitFraction?_of_endsNumber h,
    splitExponent?_of_endsNumber h, bind, pure, Option.bind_some, List.nil_append, List.append_nil]

end Numbers

theorem Value.digits?_toDigits (n : Nat) : Value.digits? (Nat.toDigits 10 n) = some n := by
  have hall : (Nat.toDigits 10 n).all Char.isDigit :=
    List.all_eq_true.2 fun _ => isDigit_of_mem_toDigits
  have hne : (Nat.toDigits 10 n).isEmpty = false :=
    List.isEmpty_eq_false_iff.2 Nat.toDigits_ne_nil
  have hvalue : (Nat.toDigits 10 n).foldl (fun k c => k * 10 + (c.toNat - '0'.toNat)) 0 = n := by
    simpa only [Nat.ofDigitChars_eq_foldl, Nat.mul_comm 10] using
      @Nat.ofDigitChars_ten_toDigits n
  rw [digits?, hall, hne, hvalue]
  rfl

/-! ## Single tokens -/

section Single

variable {c : Char} {rest rest' : List Char} {token : Token}

theorem tokens?_nil : tokens? [] = some [] := by
  rw [tokens?]
  rfl

theorem tokens?_cons_of_isSpace (h : isSpace c) (rest : List Char) :
    tokens? (c :: rest) = tokens? rest := by
  have hdrop : (c :: rest).dropWhile isSpace = rest.dropWhile isSpace :=
    List.dropWhile_cons_of_pos h
  rw [tokens?, tokens?]
  grind

theorem tokens?_of_splitToken? (hspace : isSpace c = false)
    (h : splitToken? (c :: rest) = some (token, rest')) :
    tokens? (c :: rest) = (tokens? rest').map (token :: ·) := by
  have hdrop : (c :: rest).dropWhile isSpace = c :: rest :=
    List.dropWhile_cons_of_neg (by simp [hspace])
  rw [tokens?]
  grind

theorem tokens?_eq_none (hspace : isSpace c = false)
    (h : splitToken? (c :: rest) = none) : tokens? (c :: rest) = none := by
  have hdrop : (c :: rest).dropWhile isSpace = c :: rest :=
    List.dropWhile_cons_of_neg (by simp [hspace])
  rw [tokens?]
  grind

theorem isSpace_of_isDigit (h : c.isDigit) : isSpace c = false := by
  cases hspace : isSpace c with
  | false => rfl
  | true =>
    simp only [isSpace, Bool.or_eq_true, decide_eq_true_eq] at hspace
    obtain ((rfl | rfl) | rfl) | rfl := hspace <;> exact absurd h (by decide)

theorem endsNumber_of_isSpace {gap : List Char} (h : ∀ c ∈ gap, isSpace c) : EndsNumber gap := by
  intro c hc
  have hspace : isSpace c := h c (List.mem_of_mem_head? hc)
  simp only [isSpace, Bool.or_eq_true, decide_eq_true_eq] at hspace
  obtain ((rfl | rfl) | rfl) | rfl := hspace <;> decide

theorem splitToken?_of_isDigit (h : c.isDigit) (rest : List Char) :
    splitToken? (c :: rest) = (splitNumber? (c :: rest)).map fun (t, r) => (.number t, r) := by
  unfold splitToken?
  split
  case h_11 => rfl
  all_goals
    obtain ⟨rfl, -⟩ := List.cons.inj ‹_ = _›
    exact absurd h (by decide)

end Single

/-- The character is a token of its own. -/
structure IsMark (c : Char) (token : Token) : Prop where
  solid : isSpace c = false
  token : ∀ rest, splitToken? (c :: rest) = some (token, rest)
  ends : EndsNumber [c]

theorem isMark_comma : IsMark ',' .comma :=
  ⟨rfl, fun _ => rfl, endsNumber_cons rfl (by decide) (by decide)⟩

theorem isMark_colon : IsMark ':' .colon :=
  ⟨rfl, fun _ => rfl, endsNumber_cons rfl (by decide) (by decide)⟩

theorem isMark_openList : IsMark '[' .openList :=
  ⟨rfl, fun _ => rfl, endsNumber_cons rfl (by decide) (by decide)⟩

theorem isMark_closeList : IsMark ']' .closeList :=
  ⟨rfl, fun _ => rfl, endsNumber_cons rfl (by decide) (by decide)⟩

theorem isMark_openObject : IsMark '\x7b' .openObject :=
  ⟨rfl, fun _ => rfl, endsNumber_cons rfl (by decide) (by decide)⟩

theorem isMark_closeObject : IsMark '\x7d' .closeObject :=
  ⟨rfl, fun _ => rfl, endsNumber_cons rfl (by decide) (by decide)⟩

/-! ## Rows of tokens -/

/-- The text is scanned to a row of tokens, whatever follows that no number goes on into. -/
def Scans (text : List Char) (row : List Token) : Prop :=
  ∀ rest, EndsNumber rest → tokens? (text ++ rest) = (tokens? rest).map (row ++ ·)

section Rows

variable {text text' gap gap' : List Char} {row row' : List Token} {token : Token} {c : Char}

theorem Scans.of_splitToken? (hspace : isSpace c = false)
    (h : ∀ rest, EndsNumber rest → splitToken? (c :: text ++ rest) = some (token, rest)) :
    Scans (c :: text) [token] :=
  fun rest hrest => tokens?_of_splitToken? hspace (h rest hrest)

theorem IsMark.scans (hmark : IsMark c token) : Scans [c] [token] :=
  .of_splitToken? hmark.solid fun rest _ => hmark.token rest

theorem Scans.mark (hmark : IsMark c token) (h : Scans text row) :
    Scans (c :: text) (token :: row) := by
  intro rest hrest
  rw [List.cons_append, tokens?_of_splitToken? hmark.solid (hmark.token _), h rest hrest,
    Option.map_map]
  rfl

theorem Scans.indent (hgap : ∀ c ∈ gap, isSpace c) (h : Scans text row) :
    Scans (gap ++ text) row := by
  intro rest hrest
  induction gap with
  | nil => exact h rest hrest
  | cons c gap ih =>
    rw [List.cons_append, List.cons_append, tokens?_cons_of_isSpace (hgap c List.mem_cons_self)]
    exact ih fun d hd => hgap d (List.mem_cons_of_mem _ hd)

theorem Scans.append (h : Scans text row) (h' : Scans text' row') (hends : EndsNumber text') :
    Scans (text ++ text') (row ++ row') := by
  intro rest hrest
  rw [List.append_assoc, h _ (hends.append hrest), h' rest hrest, Option.map_map]
  simp only [Function.comp_def, List.append_assoc]

end Rows

theorem scans_string (text : List Char) :
    Scans ('"' :: escape text ++ ['"']) [.string (escape text)] := by
  refine .of_splitToken? (by decide) fun rest _ => ?_
  have hsplit : splitString? (escape text ++ ['"'] ++ rest) = some (escape text, rest) := by
    rw [List.append_assoc]
    exact splitString?_escape text rest
  exact congrArg (Option.map _) hsplit

theorem scans_number (n : Nat) : Scans (Nat.toDigits 10 n) [.number (Nat.toDigits 10 n)] := by
  obtain ⟨c, digits, hcons, hdigit⟩ := exists_toDigits_isDigit n
  have hnumber (rest : List Char) (hrest : EndsNumber rest) :
      splitNumber? (c :: digits ++ rest) = some (c :: digits, rest) := by
    rw [← hcons]
    exact splitNumber?_toDigits n hrest
  rw [hcons]
  refine .of_splitToken? (isSpace_of_isDigit hdigit) fun rest hrest => ?_
  rw [List.cons_append, splitToken?_of_isDigit hdigit, ← List.cons_append, hnumber rest hrest,
    Option.map_some]

theorem Scans.member {gap value : List Char} {row : List Token} (hgap : ∀ c ∈ gap, isSpace c)
    (name : List Char) (h : Scans value row) :
    Scans ('"' :: escape name ++ ['"'] ++ ':' :: (gap ++ value))
      (.string (escape name) :: .colon :: row) :=
  (scans_string name).append (.mark isMark_colon (.indent hgap h)) isMark_colon.ends

/-! ## Series -/

section Series

variable {α : Type} {write : α → List Char} {rowOf : α → List Token} {gap gap' : List Char}

theorem endsNumber_series (items : List α) :
    EndsNumber (items.flatMap fun item => ',' :: gap ++ write item) := by
  cases items with
  | nil => exact endsNumber_nil
  | cons item items => exact endsNumber_cons rfl (by decide) (by decide)

theorem Scans.series (hgap : ∀ c ∈ gap, isSpace c) {items : List α}
    (h : ∀ item ∈ items, Scans (write item) (rowOf item)) :
    Scans (items.flatMap fun item => ',' :: gap ++ write item)
      (items.flatMap fun item => .comma :: rowOf item) := by
  induction items with
  | nil => exact fun rest _ => by simp
  | cons item items ih =>
    have hitem : Scans (',' :: gap ++ write item) (.comma :: rowOf item) :=
      .mark isMark_comma (.indent hgap (h item List.mem_cons_self))
    have hitems := ih fun item' hmem => h item' (List.mem_cons_of_mem _ hmem)
    rw [List.flatMap_cons, List.flatMap_cons]
    exact hitem.append hitems (endsNumber_series items)

/-- The items of a series stand between two marks, the last of them before another gap. -/
theorem Scans.bracketed {opening closing : Char} {openToken closeToken : Token}
    (hopening : IsMark opening openToken) (hclosing : IsMark closing closeToken)
    (hgap : ∀ c ∈ gap, isSpace c) (hgap' : ∀ c ∈ gap', isSpace c) {item : α} {items : List α}
    (h : ∀ item' ∈ item :: items, Scans (write item') (rowOf item')) :
    Scans
      (opening :: (gap ++ (write item ++ ((items.flatMap fun item => ',' :: gap ++ write item)
        ++ (gap' ++ [closing])))))
      (openToken :: (rowOf item ++ ((items.flatMap fun item => .comma :: rowOf item)
        ++ [closeToken]))) := by
  have hends : EndsNumber (gap' ++ [closing]) := (endsNumber_of_isSpace hgap').append hclosing.ends
  have hitem : Scans (write item) (rowOf item) := h item List.mem_cons_self
  have hitems := Scans.series hgap fun item' hmem => h item' (List.mem_cons_of_mem item hmem)
  exact .mark hopening (.indent hgap (hitem.append
    (hitems.append (.indent hgap' hclosing.scans) hends) ((endsNumber_series items).append hends)))

end Series

end RpcCatalog.Json
