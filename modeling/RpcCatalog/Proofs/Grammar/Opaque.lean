import RpcCatalog.Proofs.Grammar.Layout

/-!
# Opaque text

Text that an opaque declaration runs over without stopping: names, gaps and harmless marks.

* `IsLoose`: such a text; gaps and type names are (`IsGap.isLoose`, `IsTypeName.isLoose`).
* `opaqueToken_reads`: loose text with a semicolon or an empty block at its end is read as an opaque
  declaration.
-/

set_option autoImplicit false

namespace RpcCatalog.Grammar

/-- A character that means nothing to opaque text. -/
def isLooseChar (c : Char) : Bool :=
  !(c = '{' || c = '}' || c = ';' || c = '"' || c = '\'' || c = '/')

/-- Characters that mean nothing to opaque text, and comments. A line comment has its line end. -/
inductive IsLoose : List Char → Prop where
  | nil : IsLoose []
  | char {c : Char} {s : List Char} (h : isLooseChar c) (rest : IsLoose s) : IsLoose (c :: s)
  | line {text s : List Char} (h : ∀ c ∈ text, isLineEnd c = false) (rest : IsLoose s) :
    IsLoose ('/' :: '/' :: (text ++ '\n' :: s))
  | block {text s : List Char} (h : ¬ ['*', '/'] <:+: text) (rest : IsLoose s) :
    IsLoose ('/' :: '*' :: (text ++ '*' :: '/' :: s))

/-! ## What is loose -/

theorem IsLoose.append {s t : List Char} (hs : IsLoose s) (ht : IsLoose t) : IsLoose (s ++ t) := by
  induction hs with
  | nil => exact ht
  | char h _ ih => exact .char h ih
  | @line text s h _ ih =>
    rw [show ('/' :: '/' :: (text ++ '\n' :: s)) ++ t = '/' :: '/' :: (text ++ '\n' :: (s ++ t)) by
      simp]
    exact .line h ih
  | @block text s h _ ih =>
    rw [show ('/' :: '*' :: (text ++ '*' :: '/' :: s)) ++ t =
      '/' :: '*' :: (text ++ '*' :: '/' :: (s ++ t)) by simp]
    exact .block h ih

theorem isLoose_of_forall {s : List Char} (h : ∀ c ∈ s, isLooseChar c) : IsLoose s := by
  induction s with
  | nil => exact .nil
  | cons c s ih =>
    obtain ⟨hc, hs⟩ := List.forall_mem_cons.1 h
    exact .char hc (ih hs)

theorem isLooseChar_of_isBlank {c : Char} (h : isBlank c) : isLooseChar c := by
  simp only [isBlank, Bool.or_eq_true, decide_eq_true_eq] at h
  obtain (((rfl | rfl) | rfl) | rfl) | rfl := h <;> decide

theorem isLooseChar_of_isNameChar {c : Char} (h : isNameChar c) : isLooseChar c := by
  cases hloose : isLooseChar c with
  | true => rfl
  | false =>
    simp only [isLooseChar, Bool.not_eq_eq_eq_not, Bool.not_false, Bool.or_eq_true,
      decide_eq_true_eq] at hloose
    obtain ((((rfl | rfl) | rfl) | rfl) | rfl) | rfl := hloose <;> cases h

theorem IsGap.isLoose {g : List Char} (h : IsGap g) : IsLoose g := by
  induction h with
  | nil => exact .nil
  | blank hc _ ih => exact .char (isLooseChar_of_isBlank hc) ih
  | line htext _ ih => exact .line htext ih
  | block htext _ ih => exact .block htext ih

theorem IsName.isLoose {n : List Char} (h : IsName n) : IsLoose n := by
  obtain ⟨c, s, rfl, hc, hs⟩ := h
  refine isLoose_of_forall (List.forall_mem_cons.2 ⟨?_, fun d hd => ?_⟩)
  · exact isLooseChar_of_isNameChar (isNameChar_of_isNameStart hc)
  · exact isLooseChar_of_isNameChar (hs d hd)

theorem IsDotted.isLoose {n : List Char} (h : IsDotted n) : IsLoose n := by
  induction h with
  | name h => exact h.isLoose
  | dot h _ ih => exact h.isLoose.append (.char rfl ih)

theorem IsTypeName.isLoose {n : List Char} (h : IsTypeName n) : IsLoose n := by
  cases h with
  | relative h => exact h.isLoose
  | absolute h => exact .char rfl h.isLoose

/-! ## Opaque declarations -/

theorem chunk_of_isLooseChar {c : Char} (h : isLooseChar c) (s : List Char) :
    chunk c s = ([c], s) := by
  simp only [isLooseChar, Bool.not_eq_eq_eq_not, Bool.not_true, Bool.or_eq_false_iff,
    decide_eq_false_iff_not] at h
  obtain ⟨⟨⟨-, hquote⟩, hapostrophe⟩, hslash⟩ := h
  have hscan : orElse quotedText (orElse lineComment blockComment) (c :: s) = none := by
    have hquoted : quotedText (c :: s) = none := by
      unfold quotedText
      split
      · next heq => exact absurd (List.cons.inj heq).1 hquote
      · next heq => exact absurd (List.cons.inj heq).1 hapostrophe
      · rfl
    have hne : ∀ d ∈ (c :: s).head?, d ≠ '/' := fun d hd => by cases hd; exact hslash
    simp only [orElse, hquoted, lineComment_eq_none hne, blockComment_eq_none hne]
  rw [chunk, hscan]

theorem opaqueRun_cons {c : Char} {s t r : List Char}
    (hc : (c = '{' || c = '}' || c = ';') = false) (h : chunk c s = (t, r)) :
    opaqueRun (c :: s) = (t ++ (opaqueRun r).1, (opaqueRun r).2) := by
  rw [opaqueRun, if_neg (by simp [hc]), h]

theorem opaqueRun_append {s : List Char} (hs : IsLoose s) {c : Char}
    (hc : (c = '{' || c = '}' || c = ';') = true) (r : List Char) :
    opaqueRun (s ++ c :: r) = (s, c :: r) := by
  induction hs with
  | nil => rw [List.nil_append, opaqueRun, if_pos hc]
  | @char d s hd _ ih =>
    have hd' : (d = '{' || d = '}' || d = ';') = false := by
      simp only [isLooseChar, Bool.not_eq_eq_eq_not, Bool.not_true, Bool.or_eq_false_iff] at hd
      simp only [Bool.or_eq_false_iff]
      exact hd.1.1.1
    rw [List.cons_append, opaqueRun_cons hd' (chunk_of_isLooseChar hd _), ih]
    rfl
  | @line text s h _ ih =>
    have hcomment : lineComment ('/' :: '/' :: (text ++ '\n' :: (s ++ c :: r))) =
        some ('/' :: '/' :: text, '\n' :: (s ++ c :: r)) :=
      lineComment_append h fun d hd => by cases hd; rfl
    have hchunk : chunk '/' ('/' :: (text ++ '\n' :: (s ++ c :: r))) =
        ('/' :: '/' :: text, '\n' :: (s ++ c :: r)) := by
      have hquoted : quotedText ('/' :: '/' :: (text ++ '\n' :: (s ++ c :: r))) = none := rfl
      simp only [chunk, orElse, hquoted, hcomment]
    have hend : opaqueRun ('\n' :: (s ++ c :: r)) = ('\n' :: s, c :: r) := by
      rw [opaqueRun_cons rfl (chunk_of_isLooseChar rfl _), ih]
      rfl
    have hcons := opaqueRun_cons rfl hchunk
    rw [hend] at hcons
    simpa using hcons
  | @block text s h _ ih =>
    have hcomment : blockComment ('/' :: '*' :: (text ++ '*' :: '/' :: (s ++ c :: r))) =
        some ('/' :: '*' :: (text ++ ['*', '/']), s ++ c :: r) :=
      blockComment_append h (s ++ c :: r)
    have hchunk : chunk '/' ('*' :: (text ++ '*' :: '/' :: (s ++ c :: r))) =
        ('/' :: '*' :: (text ++ ['*', '/']), s ++ c :: r) := by
      have hquoted : quotedText ('/' :: '*' :: (text ++ '*' :: '/' :: (s ++ c :: r))) = none := rfl
      have hline : lineComment ('/' :: '*' :: (text ++ '*' :: '/' :: (s ++ c :: r))) = none := rfl
      simp only [chunk, orElse, hquoted, hline, hcomment]
    have hcons := opaqueRun_cons rfl hchunk
    rw [ih] at hcons
    simpa using hcons

/-- How an opaque declaration may end: in a semicolon or in an empty block. -/
inductive IsEnding : List Char → Prop where
  | semicolon : IsEnding [';']
  | block : IsEnding ['{', '}']

theorem opaqueDeclaration_append {s e : List Char} (hs : IsLoose s) (hne : s ≠ [])
    (he : IsEnding e) (r : List Char) :
    opaqueDeclaration (s ++ e ++ r) = some (s ++ e, r) := by
  cases he with
  | semicolon =>
    have hrun : opaqueRun (s ++ [';'] ++ r) = (s, ';' :: r) := by
      simpa using opaqueRun_append hs rfl r
    cases s with
    | nil => exact absurd rfl hne
    | cons c s =>
      rw [opaqueDeclaration, hrun]
      rfl
  | block =>
    have hrun : opaqueRun (s ++ ['{', '}'] ++ r) = (s, '{' :: '}' :: r) := by
      simpa using opaqueRun_append hs rfl ('}' :: r)
    cases s with
    | nil => exact absurd rfl hne
    | cons c s =>
      rw [opaqueDeclaration, hrun]
      change (body ('{' :: '}' :: r)).map (fun split => (c :: s ++ split.1, split.2)) = _
      rw [body_empty]
      rfl

theorem opaqueToken_reads {s e : List Char} (hs : IsLoose s) (hne : s ≠ []) (he : IsEnding e)
    (r : List Char) :
    opaqueToken.Reads (s ++ e ++ r) (String.ofList (s ++ e)) (skipBlanks r) :=
  .lexeme (opaqueDeclaration_append hs hne he r)

end RpcCatalog.Grammar
