import RpcCatalog.Grammar.Declarations
import RpcCatalog.Proofs.Grammar.Reads

/-!
# Tokens and the gaps between them

What the tokens of a declaration look like, and that each is read back where a gap comes after it.

* `IsGap`: white space, line comments and block comments, in any order and number.
* `IsName`, `IsDotted`, `IsTypeName`, `IsQuotable`, `IsPlain`: names, and the texts of literals.
* `IsGap.reads`: a gap is skipped up to the next token, whatever its comments say.
-/

set_option autoImplicit false

namespace RpcCatalog.Grammar

open Phrase (lexeme mark many named)

/-! ## Gaps -/

/-- A text that may stand between two tokens of a declaration. -/
inductive IsGap : List Char → Prop where
  | nil : IsGap []
  | blank {c : Char} {s : List Char} (h : isBlank c) (rest : IsGap s) : IsGap (c :: s)
  | line {text s : List Char} (h : ∀ c ∈ text, isLineEnd c = false) (rest : IsGap s) :
    IsGap ('/' :: '/' :: (text ++ '\n' :: s))
  | block {text s : List Char} (h : ¬ ['*', '/'] <:+: text) (rest : IsGap s) :
    IsGap ('/' :: '*' :: (text ++ '*' :: '/' :: s))

/-- A text with neither white space nor a comment in front. -/
def IsSolid (t : List Char) : Prop := ∀ c ∈ t.head?, isBlank c = false ∧ c ≠ '/'

/-- A text in front of which a line comment ends. -/
def EndsLine (s : List Char) : Prop := ∀ c ∈ s.head?, isLineEnd c

theorem IsSolid.skipBlanks_eq {t : List Char} (h : IsSolid t) : skipBlanks t = t := by
  cases t with
  | nil => rfl
  | cons c t => exact skipBlanks_cons_of_not_isBlank (h c rfl).1 t

theorem lineComment_append {text r : List Char} (h : ∀ c ∈ text, isLineEnd c = false)
    (hr : EndsLine r) : lineComment ('/' :: '/' :: (text ++ r)) = some ('/' :: '/' :: text, r) := by
  have htext : ∀ c ∈ text, (!isLineEnd c) = true := fun c hc => by simp [h c hc]
  have hrest : r.takeWhile (!isLineEnd ·) = [] ∧ r.dropWhile (!isLineEnd ·) = r := by
    cases r with
    | nil => exact ⟨rfl, rfl⟩
    | cons c r =>
      have hc : isLineEnd c = true := hr c rfl
      exact ⟨List.takeWhile_cons_of_neg (by simp [hc]), List.dropWhile_cons_of_neg (by simp [hc])⟩
  rw [lineComment, List.takeWhile_append_of_pos htext, List.dropWhile_append_of_pos htext, hrest.1,
    hrest.2, List.append_nil]

theorem throughCommentEnd_append {text : List Char} (h : ¬ ['*', '/'] <:+: text) (r : List Char) :
    throughCommentEnd (text ++ '*' :: '/' :: r) = some (text ++ ['*', '/'], r) := by
  induction text with
  | nil => rfl
  | cons c text ih =>
    have htext : ¬ ['*', '/'] <:+: text :=
      fun hmem => h (hmem.trans (List.suffix_cons c text).isInfix)
    have hend : ∀ r', c = '*' → text ++ '*' :: '/' :: r = '/' :: r' → False := by
      rintro r' rfl hnext
      cases text with
      | nil => simp at hnext
      | cons d text =>
        obtain ⟨rfl, -⟩ := List.cons.inj hnext
        exact h ⟨[], text, rfl⟩
    rw [List.cons_append, throughCommentEnd.eq_3 _ _ hend, ih htext]
    rfl

theorem blockComment_append {text : List Char} (h : ¬ ['*', '/'] <:+: text) (r : List Char) :
    blockComment ('/' :: '*' :: (text ++ '*' :: '/' :: r)) =
      some ('/' :: '*' :: (text ++ ['*', '/']), r) := by
  rw [blockComment, throughCommentEnd_append h]
  rfl

theorem lineComment_eq_none {t : List Char} (h : ∀ c ∈ t.head?, c ≠ '/') :
    lineComment t = none := by
  unfold lineComment
  split
  · exact absurd rfl (h '/' rfl)
  · rfl

theorem blockComment_eq_none {t : List Char} (h : ∀ c ∈ t.head?, c ≠ '/') :
    blockComment t = none := by
  unfold blockComment
  split
  · exact absurd rfl (h '/' rfl)
  · rfl

/-- A comment in a gap. -/
def gapComment : Phrase String :=
  lexeme .lineComment lineComment <|> lexeme .blockComment blockComment

theorem gapComment_rejects {t : List Char} (h : ∀ c ∈ t.head?, c ≠ '/') : gapComment.Rejects t :=
  .orElse (.lexeme (lineComment_eq_none h)) (.lexeme (blockComment_eq_none h))

theorem IsGap.readsMany {g t : List Char} (hg : IsGap g) (ht : IsSolid t) :
    ∃ comments, gapComment.ReadsMany (g ++ t) comments t := by
  induction hg with
  | nil =>
    have hreject : gapComment.Rejects (skipBlanks t) := by
      rw [ht.skipBlanks_eq]
      exact gapComment_rejects fun c hc => (ht c hc).2
    have hnil := Phrase.ReadsMany.nil hreject
    rw [ht.skipBlanks_eq] at hnil
    exact ⟨[], hnil⟩
  | blank hc _ ih =>
    obtain ⟨comments, hmany⟩ := ih
    exact ⟨comments, hmany.of_skipBlanks (skipBlanks_cons_of_isBlank hc _)⟩
  | @line text s htext _ ih =>
    obtain ⟨comments, hmany⟩ := ih
    have hscan : lineComment (('/' :: '/' :: text) ++ ('\n' :: s ++ t)) =
        some ('/' :: '/' :: text, '\n' :: s ++ t) :=
      lineComment_append htext fun c hc => by cases hc; rfl
    have hread : gapComment.Reads (('/' :: '/' :: text) ++ ('\n' :: s ++ t)) _ _ :=
      .orElse_left (.lexeme hscan)
    have hcons := Phrase.ReadsMany.cons_append (skipBlanks_cons_of_not_isBlank rfl _)
      (List.cons_ne_nil _ _) hread (hmany.of_skipBlanks (skipBlanks_cons_of_isBlank rfl _))
    exact ⟨_, by simpa using hcons⟩
  | @block text s htext _ ih =>
    obtain ⟨comments, hmany⟩ := ih
    have hscan : blockComment (('/' :: '*' :: (text ++ ['*', '/'])) ++ (s ++ t)) =
        some ('/' :: '*' :: (text ++ ['*', '/']), s ++ t) := by
      simpa using blockComment_append htext (s ++ t)
    have hread : gapComment.Reads (('/' :: '*' :: (text ++ ['*', '/'])) ++ (s ++ t)) _ _ :=
      .orElse_right (.lexeme rfl) (.lexeme hscan)
    have hcons := Phrase.ReadsMany.cons_append (skipBlanks_cons_of_not_isBlank rfl _)
      (List.cons_ne_nil _ _) hread hmany
    exact ⟨_, by simpa using hcons⟩

/-- A gap is skipped up to the token after it. -/
theorem IsGap.reads {g t : List Char} (hg : IsGap g) (ht : IsSolid t) :
    gap.Reads (skipBlanks (g ++ t)) () t := by
  obtain ⟨comments, hmany⟩ := hg.readsMany ht
  exact (hmany.of_skipBlanks (skipBlanks_skipBlanks _)).reads.map

theorem gap_reads_empty {t : List Char} (ht : IsSolid t) : gap.Reads t () t := by
  have h := IsGap.nil.reads ht
  rwa [List.nil_append, ht.skipBlanks_eq] at h

/-! ## Names -/

/-- A letter or underscore and name characters. -/
def IsName (n : List Char) : Prop :=
  ∃ c s, n = c :: s ∧ isNameStart c ∧ ∀ d ∈ s, isNameChar d

/-- Names joined by single dots. -/
inductive IsDotted : List Char → Prop where
  | name {n : List Char} (h : IsName n) : IsDotted n
  | dot {n m : List Char} (h : IsName n) (rest : IsDotted m) : IsDotted (n ++ '.' :: m)

/-- A dotted name, with a dot in front if it is absolute. -/
inductive IsTypeName : List Char → Prop where
  | relative {n : List Char} (h : IsDotted n) : IsTypeName n
  | absolute {n : List Char} (h : IsDotted n) : IsTypeName ('.' :: n)

/-- A text in front of which a dotted name ends. -/
structure EndsName (r : List Char) : Prop where
  atWordEnd : atWordEnd r
  not_dot : ∀ c ∈ r.head?, c ≠ '.'

theorem isNameChar_eq_false_of_isBlank {c : Char} (h : isBlank c) : isNameChar c = false := by
  simp only [isBlank, Bool.or_eq_true, decide_eq_true_eq] at h
  obtain (((rfl | rfl) | rfl) | rfl) | rfl := h <;> rfl

theorem isNameChar_of_isNameStart {c : Char} (h : isNameStart c) : isNameChar c := by
  simp only [isNameStart, isNameChar, Char.isAlphanum, Bool.or_eq_true] at h ⊢
  exact h.imp_left .inl

theorem isSolid_of_isNameStart {c : Char} (h : isNameStart c) (s : List Char) :
    IsSolid (c :: s) := by
  intro d hd
  obtain rfl : c = d := by simpa using hd
  have hchar := isNameChar_of_isNameStart h
  refine ⟨?_, ?_⟩
  · cases hblank : isBlank c with
    | false => rfl
    | true =>
      rw [isNameChar_eq_false_of_isBlank hblank] at hchar
      cases hchar
  · rintro rfl
    cases hchar

theorem IsDotted.exists_cons {n : List Char} (h : IsDotted n) :
    ∃ c s, n = c :: s ∧ isNameStart c := by
  cases h with
  | name h =>
    obtain ⟨c, s, rfl, hc, -⟩ := h
    exact ⟨c, s, rfl, hc⟩
  | @dot _ m h _ =>
    obtain ⟨c, s, rfl, hc, -⟩ := h
    exact ⟨c, s ++ '.' :: m, rfl, hc⟩

theorem IsDotted.isSolid {n : List Char} (h : IsDotted n) (s : List Char) : IsSolid (n ++ s) := by
  obtain ⟨c, n, rfl, hc⟩ := h.exists_cons
  exact isSolid_of_isNameStart hc (n ++ s)

theorem IsName.isSolid {n : List Char} (h : IsName n) (s : List Char) : IsSolid (n ++ s) :=
  (IsDotted.name h).isSolid s

theorem IsName.length_pos {n : List Char} (h : IsName n) : 0 < n.length := by
  obtain ⟨c, s, rfl, -⟩ := h
  exact Nat.succ_pos _

theorem IsName.ne_nil {n : List Char} (h : IsName n) : n ≠ [] := List.length_pos_iff.1 h.length_pos

theorem IsDotted.ne_nil {n : List Char} (h : IsDotted n) : n ≠ [] := by
  obtain ⟨c, s, rfl, -⟩ := h.exists_cons
  exact List.cons_ne_nil c s

theorem IsTypeName.exists_cons {n : List Char} (h : IsTypeName n) :
    ∃ c s, n = c :: s ∧ (isNameStart c ∨ c = '.') := by
  cases h with
  | relative h =>
    obtain ⟨c, s, rfl, hc⟩ := h.exists_cons
    exact ⟨c, s, rfl, .inl hc⟩
  | absolute h => exact ⟨'.', _, rfl, .inr rfl⟩

theorem IsTypeName.isSolid {n : List Char} (h : IsTypeName n) (s : List Char) :
    IsSolid (n ++ s) := by
  cases h with
  | relative h => exact h.isSolid s
  | absolute h =>
    intro c hc
    cases hc
    decide

theorem endsName_cons {c : Char} (h : isNameChar c = false ∧ c ≠ '.') (s : List Char) :
    EndsName (c :: s) where
  atWordEnd := by simp [Grammar.atWordEnd, h.1]
  not_dot d hd := by
    cases hd
    exact h.2

/-- A mark between tokens, in front of which any gap and any name ends. -/
def isMark (c : Char) : Bool := !isBlank c && c ≠ '/' && !isNameChar c && c ≠ '.'

theorem isSolid_of_isMark {c : Char} (h : isMark c) (s : List Char) : IsSolid (c :: s) := by
  simp only [isMark, Bool.and_eq_true, Bool.not_eq_eq_eq_not, Bool.not_true,
    decide_eq_true_eq] at h
  intro d hd
  cases hd
  exact h.1.1

theorem endsName_of_isMark {c : Char} (h : isMark c) (s : List Char) : EndsName (c :: s) := by
  simp only [isMark, Bool.and_eq_true, Bool.not_eq_eq_eq_not, Bool.not_true,
    decide_eq_true_eq] at h
  exact endsName_cons ⟨h.1.2, h.2⟩ s

/-- No name goes on into a gap, nor past an empty gap if it does not go on into what follows. -/
theorem IsGap.endsName {g t : List Char} (hg : IsGap g) (ht : g = [] → EndsName t) :
    EndsName (g ++ t) := by
  cases hg with
  | nil => exact ht rfl
  | @blank c s hc _ =>
    refine endsName_cons ⟨isNameChar_eq_false_of_isBlank hc, ?_⟩ _
    rintro rfl
    cases hc
  | line _ _ => exact endsName_cons (by decide) _
  | block _ _ => exact endsName_cons (by decide) _

theorem name_append {n r : List Char} (hn : IsName n) (hr : atWordEnd r) :
    name (n ++ r) = some (n, r) := by
  obtain ⟨c, s, rfl, hc, hs⟩ := hn
  have hrest : r.takeWhile isNameChar = [] ∧ r.dropWhile isNameChar = r := by
    cases r with
    | nil => exact ⟨rfl, rfl⟩
    | cons d r =>
      have hd : isNameChar d = false := by simpa [atWordEnd] using hr
      exact ⟨List.takeWhile_cons_of_neg (by simp [hd]), List.dropWhile_cons_of_neg (by simp [hd])⟩
  rw [List.cons_append, name, if_pos hc, List.takeWhile_append_of_pos hs,
    List.dropWhile_append_of_pos hs, hrest.1, hrest.2, List.append_nil]

section Dotted

variable {part : Scan}

theorem dottedTail_of_not_dot {r : List Char} (hr : ∀ c ∈ r.head?, c ≠ '.') (fuel : Nat) :
    dottedTail part fuel r = ([], r) := by
  cases fuel with
  | zero => rfl
  | succ fuel =>
    unfold dottedTail
    split
    · exact absurd rfl (hr '.' rfl)
    · rfl

theorem dottedTail_append
    (hpart : ∀ {n r : List Char}, IsName n → atWordEnd r → part (n ++ r) = some (n, r))
    {n r : List Char} (hn : IsDotted n) (hr : EndsName r) {fuel : Nat} (hfuel : n.length ≤ fuel) :
    dottedTail part fuel ('.' :: (n ++ r)) = ('.' :: n, r) := by
  induction hn generalizing fuel with
  | @name n h =>
    have hpos := h.length_pos
    obtain ⟨fuel', rfl⟩ : ∃ fuel', fuel = fuel' + 1 := ⟨fuel - 1, by omega⟩
    simp only [dottedTail, hpart h hr.atWordEnd, dottedTail_of_not_dot hr.not_dot, List.append_nil]
  | @dot n m h _ ih =>
    have hpos := h.length_pos
    rw [List.length_append, List.length_cons] at hfuel
    obtain ⟨fuel', rfl⟩ : ∃ fuel', fuel = fuel' + 1 := ⟨fuel - 1, by omega⟩
    have hhead : part (n ++ '.' :: (m ++ r)) = some (n, '.' :: (m ++ r)) := hpart h rfl
    have htail : dottedTail part fuel' ('.' :: (m ++ r)) = ('.' :: m, r) := ih (by omega)
    rw [List.append_assoc, List.cons_append, dottedTail]
    simp only [hhead, htail, List.cons_append]

theorem dotted_append
    (hpart : ∀ {n r : List Char}, IsName n → atWordEnd r → part (n ++ r) = some (n, r))
    {n r : List Char} (hn : IsDotted n) (hr : EndsName r) :
    dotted part (n ++ r) = some (n, r) := by
  cases hn with
  | name h =>
    simp only [dotted, hpart h hr.atWordEnd, dottedTail_of_not_dot hr.not_dot, List.append_nil]
  | @dot n m h hm =>
    have htail : dottedTail part ('.' :: (m ++ r)).length ('.' :: (m ++ r)) = ('.' :: m, r) :=
      dottedTail_append hpart hm hr (by simp; omega)
    have hhead : part (n ++ '.' :: (m ++ r)) = some (n, '.' :: (m ++ r)) := hpart h rfl
    rw [List.append_assoc, List.cons_append, dotted]
    simp only [hhead, htail]

end Dotted

theorem dottedName_append {n r : List Char} (hn : IsDotted n) (hr : EndsName r) :
    dottedName (n ++ r) = some (n, r) :=
  dotted_append name_append hn hr

theorem optionName_append {n r : List Char} (hn : IsDotted n) (hr : EndsName r) :
    optionName (n ++ r) = some (n, r) := by
  refine dotted_append (fun {n r} hn hr => ?_) hn hr
  have hextension : extensionName (n ++ r) = none := by
    obtain ⟨c, s, rfl, hc, -⟩ := hn
    unfold extensionName
    split
    · next heq =>
      obtain ⟨rfl, -⟩ := List.cons.inj heq
      cases hc
    · rfl
  rw [orElse, hextension]
  exact name_append hn hr

theorem typeName_append {n r : List Char} (hn : IsTypeName n) (hr : EndsName r) :
    typeName (n ++ r) = some (n, r) := by
  cases hn with
  | relative h =>
    obtain ⟨c, s, hcons, hc⟩ := h.exists_cons
    unfold typeName
    split
    · next heq =>
      rw [hcons] at heq
      obtain ⟨rfl, -⟩ := List.cons.inj heq
      cases hc
    · exact dottedName_append h hr
  | absolute h =>
    rw [List.cons_append, typeName, dottedName_append h hr]
    rfl

/-! ## Literals -/

/-- A text that may stand in quotes. A backslash takes the next character with it, and else there is
neither the quote nor the end of a line in the text. -/
inductive IsQuotable (quote : Char) : List Char → Prop where
  | nil : IsQuotable quote []
  | escape {c : Char} {s : List Char} (rest : IsQuotable quote s) :
    IsQuotable quote ('\\' :: c :: s)
  | char {c : Char} {s : List Char} (hquote : c ≠ quote) (hbackslash : c ≠ '\\')
    (hline : isLineEnd c = false) (rest : IsQuotable quote s) : IsQuotable quote (c :: s)

/-- A text that may stand in double quotes as it is. -/
def IsPlain (text : List Char) : Prop :=
  ∀ c ∈ text, c ≠ '"' ∧ c ≠ '\\' ∧ isLineEnd c = false

theorem IsPlain.isQuotable {text : List Char} (h : IsPlain text) : IsQuotable '"' text := by
  induction text with
  | nil => exact .nil
  | cons c text ih =>
    obtain ⟨⟨hquote, hbackslash, hline⟩, htext⟩ := List.forall_mem_cons.1 h
    exact .char hquote hbackslash hline (ih htext)

theorem IsQuotable.throughQuote_append {quote : Char} {text : List Char} (hquote : quote ≠ '\\')
    (h : IsQuotable quote text) (r : List Char) :
    throughQuote quote (text ++ quote :: r) = some (text ++ [quote], r) := by
  induction h with
  | nil =>
    rw [List.nil_append, throughQuote.eq_3 _ _ _ (fun _ _ e _ => hquote e), if_pos rfl]
    rfl
  | escape _ ih =>
    rw [List.cons_append, List.cons_append, throughQuote, ih]
    rfl
  | char hne hbackslash hline _ ih =>
    rw [List.cons_append, throughQuote.eq_3 _ _ _ (fun _ _ e _ => hbackslash e), if_neg hne,
      if_neg (by simp [hbackslash, hline]), ih]
    rfl

theorem IsQuotable.quotedText_append {quote : Char} {text : List Char}
    (hquote : quote = '"' ∨ quote = '\'') (h : IsQuotable quote text) (r : List Char) :
    quotedText (quote :: (text ++ quote :: r)) = some (quote :: (text ++ [quote]), r) := by
  obtain rfl | rfl := hquote
  · rw [quotedText, h.throughQuote_append (by decide)]
    rfl
  · rw [quotedText, h.throughQuote_append (by decide)]
    rfl

/-! ## Tokens -/

theorem keyword_reads {rule : Rule} {word : String} {r : List Char} (h : atWordEnd r) :
    (keyword rule word).Reads (word.toList ++ r) () (skipBlanks r) := by
  refine .map (.lexeme ?_)
  rw [wholeWord, Phrase.afterPrefix_append]
  exact if_pos h

theorem opening_reads {rule : Rule} {word : String} {g t : List Char} (hg : IsGap g)
    (ht : IsSolid t) (hend : g = [] → EndsName t) :
    (opening rule word).Reads (word.toList ++ (g ++ t)) () t :=
  (keyword_reads (hg.endsName hend).atWordEnd).seqLeft (hg.reads ht)

theorem punctuation_reads (c : Char) (r : List Char) :
    (punctuation c).Reads (c :: r) () (skipBlanks r) :=
  Phrase.Reads.mark [c] r

theorem closing_reads {g : List Char} (hg : IsGap g) (r : List Char) :
    closing.Reads (skipBlanks (g ++ ';' :: r)) () (skipBlanks r) :=
  (hg.reads (isSolid_of_isMark rfl r)).seqRight (punctuation_reads ';' r)

theorem nameToken_reads {n : String} {r : List Char} (hn : IsName n.toList) (hr : EndsName r) :
    nameToken.Reads (n.toList ++ r) n (skipBlanks r) := by
  have h : nameToken.Reads (n.toList ++ r) (String.ofList n.toList) (skipBlanks r) :=
    .lexeme (name_append hn hr.atWordEnd)
  rwa [String.ofList_toList] at h

theorem dottedNameToken_reads {n : String} {r : List Char} (hn : IsDotted n.toList)
    (hr : EndsName r) : dottedNameToken.Reads (n.toList ++ r) n (skipBlanks r) := by
  have h : dottedNameToken.Reads (n.toList ++ r) (String.ofList n.toList) (skipBlanks r) :=
    .lexeme (dottedName_append hn hr)
  rwa [String.ofList_toList] at h

theorem optionName_reads {n : String} {r : List Char} (hn : IsDotted n.toList) (hr : EndsName r) :
    (lexeme .optionName optionName).Reads (n.toList ++ r) n (skipBlanks r) := by
  have h : (lexeme .optionName optionName).Reads (n.toList ++ r) (String.ofList n.toList)
      (skipBlanks r) :=
    .lexeme (optionName_append hn hr)
  rwa [String.ofList_toList] at h

theorem typeName_reads {n : String} {r : List Char} (hn : IsTypeName n.toList) (hr : EndsName r) :
    (lexeme .typeName typeName).Reads (n.toList ++ r) n (skipBlanks r) := by
  have h : (lexeme .typeName typeName).Reads (n.toList ++ r) (String.ofList n.toList)
      (skipBlanks r) :=
    .lexeme (typeName_append hn hr)
  rwa [String.ofList_toList] at h

theorem heading_reads {rule : Rule} {word : String} {token : Phrase String} {n : String}
    {g₁ g₂ : List Char} (h₁ : IsGap g₁) (hne : g₁ ≠ []) (h₂ : IsGap g₂)
    (hn : ∀ r, IsSolid (n.toList ++ r))
    (htoken : ∀ {r}, EndsName r → token.Reads (n.toList ++ r) n (skipBlanks r)) (c : Char)
    (hc : isMark c) (t : List Char) :
    (opening rule word *> token <* gap).Reads
      (word.toList ++ (g₁ ++ (n.toList ++ (g₂ ++ c :: t)))) n (c :: t) := by
  have hopening : (opening rule word).Reads
      (word.toList ++ (g₁ ++ (n.toList ++ (g₂ ++ c :: t)))) () (n.toList ++ (g₂ ++ c :: t)) :=
    opening_reads h₁ (hn _) fun e => absurd e hne
  have htoken' := htoken (h₂.endsName fun _ => endsName_of_isMark hc t)
  exact (hopening.seqRight htoken').seqLeft (h₂.reads (isSolid_of_isMark hc t))

theorem literal_reads {text : String} {r : List Char} (h : IsPlain text.toList) :
    literal.Reads ('"' :: (text.toList ++ '"' :: r)) text (skipBlanks r) := by
  have hscan : quotedText ('"' :: (text.toList ++ ['"']) ++ r) =
      some ('"' :: (text.toList ++ ['"']), r) := by
    simpa using h.isQuotable.quotedText_append (.inl rfl) r
  have hread : literal.Reads ('"' :: (text.toList ++ ['"']) ++ r)
      (unquote (String.ofList ('"' :: (text.toList ++ ['"'])))) (skipBlanks r) :=
    .map (.lexeme hscan)
  simpa [unquote] using hread

theorem body_empty (r : List Char) : body ('{' :: '}' :: r) = some (['{', '}'], r) := by
  simp [body, throughClose]

theorem block_reads (r : List Char) :
    block.Reads ('{' :: '}' :: r) (String.ofList ['{', '}']) (skipBlanks r) := by
  have hscan : body (['{', '}'] ++ r) = some (['{', '}'], r) := body_empty r
  exact Phrase.Reads.lexeme hscan

end RpcCatalog.Grammar
