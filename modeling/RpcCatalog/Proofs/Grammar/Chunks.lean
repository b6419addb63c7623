import RpcCatalog.Proofs.Grammar.CommentEnd

/-!
# Texts that opaque text runs over

What opaque declarations and blocks make of the parts of modelled declarations. Both cut a text into
chunks; a part that is a row of whole chunks is run over, and a part in which braces are balanced
does not close a block around it.

* `Chunks`: a text is a row of whole chunks, none of which begins with a brace or semicolon.
* `Balanced`: a text leaves a block around it open, however deep.
* `IsKept`: what white space has and concatenation keeps; so do texts made of parts
  (`InTurn.along`).
-/

set_option autoImplicit false

namespace RpcCatalog.Grammar

/-! ## Rows of chunks -/

/-- The text is a row of chunks, none of which begins with a brace or semicolon. -/
inductive Chunks : Reading where
  | nil {r : List Char} : Chunks [] r
  | cons {c : Char} {s t r : List Char} (hc : (c = '{' || c = '}' || c = ';') = false)
    (h : chunk c (s ++ (t ++ r)) = (c :: s, t ++ r)) (rest : Chunks t r) : Chunks (c :: (s ++ t)) r

section Chunks

variable {t u r : List Char}

theorem Chunks.append (h : Chunks t (u ++ r)) (h' : Chunks u r) : Chunks (t ++ u) r := by
  generalize hrest : u ++ r = rest at h
  induction h with
  | nil => exact h'
  | cons hc h _ ih =>
    subst hrest
    rw [List.cons_append, List.append_assoc]
    exact .cons hc (by simpa using h) (ih rfl)

/-- An opaque run goes on behind the chunks. -/
theorem Chunks.opaqueRun_eq (h : Chunks t r) :
    opaqueRun (t ++ r) = (t ++ (opaqueRun r).1, (opaqueRun r).2) := by
  induction h with
  | nil => rfl
  | cons hc h _ ih =>
    rw [List.cons_append, List.append_assoc, opaqueRun_cons hc h, ih]
    simp

theorem exists_chunk (c : Char) (s : List Char) :
    ∃ front back, chunk c s = (c :: front, back) ∧ s = front ++ back := by
  have happend := chunk_append c s
  have hne := chunk_ne_nil c s
  generalize chunk c s = split at happend hne ⊢
  obtain ⟨front, back⟩ := split
  cases front with
  | nil => exact absurd rfl hne
  | cons d front =>
    obtain ⟨rfl, rfl⟩ := List.cons.inj happend
    exact ⟨front, back, rfl, rfl⟩

theorem chunks_opaqueRun (s : List Char) : Chunks (opaqueRun s).1 (opaqueRun s).2 := by
  fun_induction opaqueRun s with
  | case1 => exact .nil
  | case2 => exact .nil
  | case3 c s hc _ t r hrun ih =>
    obtain ⟨front, back, hchunk, rfl⟩ := exists_chunk c s
    have happend := opaqueRun_append_eq back
    rw [hchunk] at hrun ih ⊢
    rw [hrun] at ih happend
    rw [← happend] at hchunk
    exact .cons (by simpa using hc) hchunk ih

/-! ### Texts without marks -/

/-- What the scan takes means nothing to opaque text. -/
def IsLooseScan (scan : Scan) : Prop :=
  ∀ ⦃s t r : List Char⦄, scan s = some (t, r) → ∀ c ∈ t, isLooseChar c

theorem chunks_of_loose (h : ∀ c ∈ t, isLooseChar c) (r : List Char) : Chunks t r := by
  induction t with
  | nil => exact .nil
  | cons c t ih =>
    obtain ⟨hc, ht⟩ := List.forall_mem_cons.1 h
    have hmark : (c = '{' || c = '}' || c = ';') = false := by
      simp only [isLooseChar, Bool.not_eq_eq_eq_not, Bool.not_true, Bool.or_eq_false_iff] at hc
      simp only [Bool.or_eq_false_iff]
      exact hc.1.1.1
    have hcons : Chunks (c :: ([] ++ t)) r := .cons hmark (chunk_of_isLooseChar hc _) (ih ht)
    exact hcons

theorem IsLooseScan.of_map {scan : Scan} (h : IsLooseScan scan) {c : Char} (hc : isLooseChar c)
    {s t r : List Char} (hs : ((scan s).map fun split => (c :: split.1, split.2)) = some (t, r)) :
    ∀ d ∈ t, isLooseChar d := by
  obtain ⟨⟨t', r'⟩, hscan, hr⟩ := Option.map_eq_some_iff.1 hs
  cases hr
  exact List.forall_mem_cons.2 ⟨hc, h hscan⟩

theorem wholeWord_isLoose {word : List Char} (h : word.all isLooseChar) :
    IsLooseScan (wholeWord word) := by
  intro s t r hs
  unfold wholeWord at hs
  split at hs
  · split at hs
    · cases hs
      exact List.all_eq_true.1 h
    · cases hs
  · cases hs

theorem name_isLoose : IsLooseScan name := by
  intro s t r h
  unfold name at h
  split at h
  · cases h
  · next c s =>
    split at h
    · next hc =>
      cases h
      refine List.forall_mem_cons.2 ⟨?_, fun d hd => ?_⟩
      · exact isLooseChar_of_isNameChar (isNameChar_of_isNameStart hc)
      · exact isLooseChar_of_isNameChar (List.all_eq_true.1 List.all_takeWhile d hd)
    · cases h

theorem dottedTail_isLoose {part : Scan} (h : IsLooseScan part) (fuel : Nat) (s : List Char) :
    ∀ c ∈ (dottedTail part fuel s).1, isLooseChar c := by
  induction fuel generalizing s with
  | zero => exact fun c hc => by cases hc
  | succ fuel ih =>
    unfold dottedTail
    split
    · split
      · next p r hpart =>
        intro c hc
        obtain hc | hc := List.mem_append.1 hc
        · obtain rfl | hc := List.mem_cons.1 hc
          · rfl
          · exact h hpart c hc
        · exact ih r c hc
      · exact fun c hc => by cases hc
    · exact fun c hc => by cases hc

theorem dotted_isLoose {part : Scan} (h : IsLooseScan part) : IsLooseScan (dotted part) := by
  intro s t r hs
  unfold dotted at hs
  split at hs
  · next p r' hpart =>
    cases hs
    intro c hc
    obtain hc | hc := List.mem_append.1 hc
    · exact h hpart c hc
    · exact dottedTail_isLoose h _ _ c hc
  · cases hs

theorem dottedName_isLoose : IsLooseScan dottedName := dotted_isLoose name_isLoose

theorem typeName_isLoose : IsLooseScan typeName := by
  intro s t r h
  unfold typeName at h
  split at h
  · exact dottedName_isLoose.of_map rfl h
  · exact dottedName_isLoose h

theorem extensionName_isLoose : IsLooseScan extensionName := by
  intro s t r h
  unfold extensionName at h
  split at h
  · split at h
    · next htype =>
      cases h
      intro c hc
      obtain rfl | hc := List.mem_cons.1 hc
      · rfl
      · obtain hc | hc := List.mem_append.1 hc
        · exact typeName_isLoose htype c hc
        · obtain rfl := List.mem_singleton.1 hc
          rfl
    · cases h
  · cases h

theorem orElse_isLoose {first second : Scan} (h : IsLooseScan first) (h' : IsLooseScan second) :
    IsLooseScan (orElse first second) := by
  intro s t r hs
  unfold orElse at hs
  split at hs
  · next hfirst =>
    cases hs
    exact h hfirst
  · exact h' hs

theorem optionName_isLoose : IsLooseScan optionName :=
  dotted_isLoose (orElse_isLoose extensionName_isLoose name_isLoose)

theorem isLooseChar_of_isNumberChar {c : Char} (h : isNumberChar c) : isLooseChar c := by
  simp only [isNumberChar, Bool.or_eq_true, decide_eq_true_eq] at h
  obtain (h | rfl) | rfl := h
  · exact isLooseChar_of_isNameChar (by simp [isNameChar, h])
  · rfl
  · rfl

theorem unsignedNumber_isLoose : IsLooseScan unsignedNumber := by
  intro s t r h
  unfold unsignedNumber at h
  split at h
  · cases h
  · next c s =>
    split at h
    · next hc =>
      cases h
      refine List.forall_mem_cons.2 ⟨?_, fun d hd => ?_⟩
      · refine isLooseChar_of_isNumberChar ?_
        simp only [Bool.or_eq_true, decide_eq_true_eq] at hc
        obtain hc | rfl := hc
        · simp [isNumberChar, Char.isAlphanum, hc]
        · rfl
      · exact isLooseChar_of_isNumberChar (List.all_eq_true.1 List.all_takeWhile d hd)
    · cases h

theorem signed_isLoose {required : Bool} {scan : Scan} (h : IsLooseScan scan) :
    IsLooseScan (signed required scan) := by
  intro s t r hs
  unfold signed at hs
  split at hs
  · exact h.of_map rfl hs
  · exact h.of_map rfl hs
  · split at hs
    · cases hs
    · exact h hs

/-! ### Literals and comments -/

theorem chunks_of_chunk {c : Char} {s r : List Char}
    (hc : (c = '{' || c = '}' || c = ';') = false) (h : chunk c (s ++ r) = (c :: s, r)) :
    Chunks (c :: s) r := by
  have hcons : Chunks (c :: (s ++ [])) r := .cons hc h .nil
  rwa [List.append_nil] at hcons

theorem chunks_of_quotedText (h : Takes quotedText t r) : Chunks t r := by
  obtain ⟨quote, text, hquote, rfl⟩ := quotedText_eq_append h
  refine chunks_of_chunk ?_ ?_
  · obtain rfl | rfl := hquote <;> rfl
  · have hscan : quotedText (quote :: ((text ++ [quote]) ++ r)) =
        some (quote :: (text ++ [quote]), r) := h
    simp only [chunk, orElse, hscan]

theorem lineComment_eq_cons (h : Takes lineComment t r) : ∃ s, t = '/' :: '/' :: s := by
  unfold Takes lineComment at h
  split at h
  · cases h
    exact ⟨_, rfl⟩
  · cases h

theorem blockComment_eq_cons (h : Takes blockComment t r) : ∃ s, t = '/' :: '*' :: s := by
  unfold Takes blockComment at h
  split at h
  · obtain ⟨⟨t', r'⟩, -, hr⟩ := Option.map_eq_some_iff.1 h
    cases hr
    exact ⟨_, rfl⟩
  · cases h

theorem chunks_of_lineComment (h : Takes lineComment t r) : Chunks t r := by
  obtain ⟨s, rfl⟩ := lineComment_eq_cons h
  refine chunks_of_chunk rfl ?_
  have hscan : lineComment ('/' :: '/' :: s ++ r) = some ('/' :: '/' :: s, r) := h
  have hquoted : quotedText ('/' :: '/' :: s ++ r) = none := rfl
  rw [chunk]
  simp only [orElse, ← List.cons_append, hquoted, hscan]

theorem chunks_of_blockComment (h : Takes blockComment t r) : Chunks t r := by
  obtain ⟨s, rfl⟩ := blockComment_eq_cons h
  refine chunks_of_chunk rfl ?_
  have hscan : blockComment ('/' :: '*' :: s ++ r) = some ('/' :: '*' :: s, r) := h
  have hquoted : quotedText ('/' :: '*' :: s ++ r) = none := rfl
  have hline : lineComment ('/' :: '*' :: s ++ r) = none := rfl
  rw [chunk]
  simp only [orElse, ← List.cons_append, hquoted, hline, hscan]

end Chunks

/-! ## Balanced texts -/

/-- The text leaves a block around it open, at any depth. -/
def Balanced (t r : List Char) : Prop :=
  ∀ depth, throughClose depth (t ++ r) =
    (throughClose depth r).map fun split => (t ++ split.1, split.2)

section Balanced

variable {t u r : List Char}

theorem throughClose_chunk {c : Char} (hc : c ≠ '{' ∧ c ≠ '}') {s : List Char}
    (h : chunk c s = (t, r)) (depth : Nat) :
    throughClose depth (c :: s) =
      (throughClose depth r).map fun split => (t ++ split.1, split.2) := by
  rw [throughClose.eq_5 depth c s hc.2 hc.1, h]

theorem Balanced.nil (r : List Char) : Balanced [] r := fun depth => by simp

theorem Balanced.append (h : Balanced t (u ++ r)) (h' : Balanced u r) : Balanced (t ++ u) r := by
  intro depth
  rw [List.append_assoc, h, h', Option.map_map]
  simp [Function.comp_def]

theorem balanced_of_chunk {c : Char} {s : List Char} (hc : c ≠ '{' ∧ c ≠ '}')
    (h : chunk c (s ++ r) = (c :: s, r)) : Balanced (c :: s) r :=
  throughClose_chunk hc h

theorem balanced_semicolon (r : List Char) : Balanced [';'] r :=
  balanced_of_chunk (by decide) rfl

theorem Chunks.balanced (h : Chunks t r) : Balanced t r := by
  induction h with
  | nil => exact .nil _
  | cons hc h _ ih =>
    simp only [Bool.or_eq_false_iff, decide_eq_false_iff_not] at hc
    exact (balanced_of_chunk hc.1 h).append ih

/-- The text through a brace that closes some blocks goes on through the one that closes the blocks
around these. -/
theorem throughClose_add {depth : Nat} {s : List Char} (h : throughClose depth s = some (t, r))
    (outer : Nat) :
    throughClose (depth + (outer + 1)) s =
      (throughClose outer r).map fun split => (t ++ split.1, split.2) := by
  -- Both scans go through the same chunks; they part at the brace that closes the inner blocks.
  fun_induction throughClose depth s generalizing t with
  | case1 => cases h
  | case2 s =>
    cases h
    rw [Nat.zero_add, throughClose.eq_3]
    rfl
  | case3 s depth ih =>
    obtain ⟨⟨t', r'⟩, ht, hr⟩ := Option.map_eq_some_iff.1 h
    cases hr
    rw [Nat.succ_add, throughClose.eq_3, ih ht, Option.map_map]
    rfl
  | case4 depth s ih =>
    obtain ⟨⟨t', r'⟩, ht, hr⟩ := Option.map_eq_some_iff.1 h
    cases hr
    rw [throughClose.eq_4, Nat.add_right_comm, ih ht, Option.map_map]
    rfl
  | case5 depth c s hclose hopen _ ih =>
    obtain ⟨⟨t', r'⟩, ht, hr⟩ := Option.map_eq_some_iff.1 h
    cases hr
    rw [throughClose.eq_5 _ c s hclose hopen, ih ht, Option.map_map]
    simp [Function.comp_def]

theorem body_eq_cons (h : Takes body t r) :
    ∃ s, t = '{' :: s ∧ throughClose 0 (s ++ r) = some (s, r) := by
  unfold Takes body at h
  split at h
  · next s hs =>
    obtain ⟨⟨t', r'⟩, ht, hr⟩ := Option.map_eq_some_iff.1 h
    cases hr
    obtain rfl := (List.cons.inj hs).2
    exact ⟨t', rfl, ht⟩
  · cases h

/-- A block is balanced. -/
theorem balanced_of_body (h : Takes body t r) : Balanced t r := by
  intro depth
  obtain ⟨s, rfl, hclose⟩ := body_eq_cons h
  have hadd := throughClose_add hclose depth
  rw [Nat.zero_add] at hadd
  rw [List.cons_append, throughClose.eq_4, hadd, Option.map_map]
  rfl

/-- A block around a balanced text ends right after it. -/
theorem Balanced.takes_body (h : Balanced t ('}' :: r)) : Takes body ('{' :: (t ++ ['}'])) r := by
  have hclose := h 0
  rw [throughClose.eq_2] at hclose
  have htext : '{' :: (t ++ ['}']) ++ r = '{' :: (t ++ '}' :: r) := by simp
  rw [Takes, htext, body, hclose]
  rfl

theorem balanced_of_opaqueDeclaration (h : Takes opaqueDeclaration t r) : Balanced t r := by
  have hrun := opaqueRun_append_eq (t ++ r)
  have hchunks := chunks_opaqueRun (t ++ r)
  unfold Takes opaqueDeclaration at h
  split at h
  · cases h
  · next run r' _ heq =>
    rw [heq] at hchunks
    cases h
    exact hchunks.balanced.append (balanced_semicolon r)
  · next run r' _ _ heq =>
    rw [heq] at hchunks
    obtain ⟨⟨b, r''⟩, hbody, hr⟩ := Option.map_eq_some_iff.1 h
    cases hr
    obtain ⟨rfl, hbody⟩ := body_splits.takes hbody
    exact hchunks.balanced.append (balanced_of_body hbody)

end Balanced

/-! ## Texts made of parts -/

/-- White space has the property, and concatenation keeps it. -/
structure IsKept (P : Reading) : Prop where
  blanks : ∀ {w : List Char}, (∀ c ∈ w, isBlank c) → ∀ r, P w r
  append : ∀ {t u r : List Char}, P t (u ++ r) → P u r → P (t ++ u) r

/-- Each of the parts has the property, wherever it stands. -/
def Along (P : Reading) (parts : List Reading) : Prop := ∀ part ∈ parts, ∀ t r, part t r → P t r

section Along

variable {P Q : Reading} {parts parts' : List Reading} {t r : List Char}

theorem Along.nil : Along P [] := fun _ h => by cases h

theorem Along.cons {part : Reading} (h : ∀ t r, part t r → P t r) (hparts : Along P parts) :
    Along P (part :: parts) :=
  List.forall_mem_cons.2 ⟨h, hparts⟩

theorem Along.append (h : Along P parts) (h' : Along P parts') : Along P (parts ++ parts') :=
  List.forall_mem_append.2 ⟨h, h'⟩

theorem Along.mono (h : Along P parts) (hP : ∀ {t r}, P t r → Q t r) : Along Q parts :=
  fun part hmem t r hpart => hP (h part hmem t r hpart)

theorem IsKept.nil (hP : IsKept P) (r : List Char) : P [] r :=
  hP.blanks (fun c hc => by cases hc) r

/-- What each part has, the whole text has. -/
theorem InTurn.along (hP : IsKept P) (hparts : Along P parts) (h : InTurn parts t r) : P t r := by
  induction parts generalizing t with
  | nil => exact h ▸ hP.nil r
  | cons part parts ih =>
    obtain ⟨hpart, hrest⟩ := List.forall_mem_cons.1 hparts
    cases parts with
    | nil => exact hpart t r h
    | cons =>
      obtain ⟨t₁, w, t₂, rfl, hw, h₁, h₂⟩ := h
      refine hP.append ?_ (hP.append (hP.blanks hw _) (ih hrest h₂))
      rw [List.append_assoc]
      exact hpart _ _ h₁

/-- A text made of parts is cut in two where some of them end. -/
theorem InTurn.of_append (hne : parts ≠ []) (hne' : parts' ≠ [])
    (h : InTurn (parts ++ parts') t r) :
    ∃ t₁ w t₂, t = t₁ ++ (w ++ t₂) ∧ (∀ c ∈ w, isBlank c) ∧ InTurn parts t₁ (w ++ (t₂ ++ r)) ∧
      InTurn parts' t₂ r := by
  induction parts generalizing t with
  | nil => exact absurd rfl hne
  | cons part parts ih =>
    cases parts with
    | nil =>
      cases parts' with
      | nil => exact absurd rfl hne'
      | cons => exact h
    | cons =>
      obtain ⟨u₁, v, u₂, rfl, hv, hpart, hrest⟩ := h
      obtain ⟨t₁, w, t₂, rfl, hw, h₁, h₂⟩ := ih (List.cons_ne_nil _ _) hrest
      exact ⟨u₁ ++ (v ++ t₁), w, t₂, by simp, hw, ⟨u₁, v, t₁, rfl, hv, by simpa using hpart, h₁⟩,
        h₂⟩

end Along

theorem chunks_isKept : IsKept Chunks where
  blanks h r := chunks_of_loose (fun c hc => isLooseChar_of_isBlank (h c hc)) r
  append := Chunks.append

theorem balanced_isKept : IsKept Balanced where
  blanks h r := (chunks_isKept.blanks h r).balanced
  append := Balanced.append

/-! ### Parts of declarations -/

section Parts

theorem verbatim_chunks {scan : Scan} (h : IsLooseScan scan) {text : String} (t r : List Char)
    (ht : Reading.verbatim scan text t r) : Chunks t r :=
  chunks_of_loose (h ht.2) r

theorem word_chunks {word : String} (h : word.toList.all isLooseChar) :
    ∀ t r, Reading.word word t r → Chunks t r :=
  verbatim_chunks (wholeWord_isLoose h)

theorem mark_chunks {c : Char} (h : isLooseChar c) (t r : List Char) (ht : Reading.mark c t r) :
    Chunks t r := by
  obtain rfl : t = [c] := ht
  exact chunks_of_loose (fun d hd => List.mem_singleton.1 hd ▸ h) r

theorem comments_along {P : Reading} (hP : IsKept P)
    (hline : ∀ t r, Takes lineComment t r → P t r)
    (hblock : ∀ t r, Takes blockComment t r → P t r) (t r : List Char)
    (ht : Reading.comments t r) : P t r := by
  induction ht with
  | nil => exact hP.nil _
  | cons blank h _ ih =>
    exact hP.append (hP.blanks blank _) (hP.append (h.elim (hline _ _) (hblock _ _)) ih)

theorem comments_chunks : ∀ t r, Reading.comments t r → Chunks t r :=
  comments_along chunks_isKept (fun _ _ => chunks_of_lineComment) fun _ _ => chunks_of_blockComment

theorem heading_chunks {word name : String} (h : word.toList.all isLooseChar) :
    Along Chunks (headingParts word name) :=
  .cons (word_chunks h) <| .cons comments_chunks <| .cons (verbatim_chunks name_isLoose) <|
    .cons comments_chunks .nil

theorem parenthesized_chunks (type : String) : Along Chunks (parenthesizedParts type) :=
  .cons (mark_chunks rfl) <| .cons comments_chunks <| .cons (verbatim_chunks typeName_isLoose) <|
    .cons comments_chunks <| .cons (mark_chunks rfl) .nil

/-- The constant of an option is a row of chunks unless it is a block. -/
theorem constant_chunks {value : String} {t r : List Char} (h : Reading.constant value t r) :
    Chunks t r ∨ Takes body t r := by
  obtain h | h | h | h | h := h
  · exact .inl (chunks_of_quotedText h.2)
  · exact .inr h.2
  · exact .inl (verbatim_chunks (signed_isLoose unsignedNumber_isLoose) t r h)
  · exact .inl (verbatim_chunks (signed_isLoose name_isLoose) t r h)
  · exact .inl (verbatim_chunks dottedName_isLoose t r h)

theorem ending_balanced (t r : List Char) (h : Reading.ending t r) : Balanced t r := by
  obtain rfl | h := h
  · exact balanced_semicolon r
  · exact balanced_of_body h

end Parts

end RpcCatalog.Grammar
