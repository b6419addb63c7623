import RpcCatalog.Proofs.Grammar.Chunks

/-!
# The catch-all grammar

Whether a text can be parsed is settled by comments, semicolons and opaque declarations alone. The
rules for modelled declarations decide what a declaration is taken for, but neither save a text that
has no other reading nor spoil one that has.

* `catchAllFile`: the grammar without the rules for modelled declarations.
* `Phrase.Exhausts`: items that follow one another take up a whole text.
* `Skipped`: a text in front of which the catch-all grammar takes up as much as behind it.
* `parseDeclarations_ok_iff_catchAll`: both grammars accept the same texts.
-/

set_option autoImplicit false

namespace RpcCatalog

namespace Grammar

open Phrase (many endOfInput)

/-! ## Two grammars -/

/-- One declaration, of which nothing is modelled. -/
def catchAllDeclaration : Phrase Unit :=
  (fun _ => ()) <$> comment
    <|> (fun _ => ()) <$> punctuation ';'
    <|> (fun _ => ()) <$> opaqueToken

/-- A whole file, of which nothing is modelled. -/
def catchAllFile : Phrase Unit := (fun _ => ()) <$> many catchAllDeclaration <* endOfInput

namespace Phrase

variable {α β : Type} {item : Phrase α} {s r : List Char} {a : α}

/-- Items read one after another, as long as they match, take up the whole text. -/
def Exhausts (item : Phrase α) (s : List Char) : Prop := skipBlanks (collect item.parse s).2 = []

/-- Whatever the phrase matches, it takes something off the text. -/
def Advances (item : Phrase α) : Prop :=
  ∀ {s r : List Char} {a : α}, item.parse s = some (a, r) → r.length < s.length

theorem parse_whole_iff (f : List α → β) {b : β} :
    (∃ r, (f <$> many item <* endOfInput).parse s = some (b, r)) ↔
      item.Exhausts s ∧ f (collect item.parse s).1 = b := by
  change (∃ r, (Phrase.seq _ (Phrase.map f (many item)) endOfInput).parse s = some (b, r)) ↔ _
  simp only [parse, Option.map_some, Exhausts]
  cases hrest : skipBlanks (collect item.parse s).2 with
  | nil => simp
  | cons c rest => simp

theorem exists_parse_whole_iff (f : List α → β) :
    (∃ result, (f <$> many item <* endOfInput).parse s = some result) ↔ item.Exhausts s := by
  simp only [Prod.exists, parse_whole_iff, exists_and_left, exists_eq', and_true]

theorem collect_of_rejects (h : item.Rejects (skipBlanks s)) : collect item.parse s = ([], s) := by
  rw [collect, show item.parse (skipBlanks s) = none from h]

theorem Advances.collect_eq (hitem : item.Advances)
    (h : item.parse (skipBlanks s) = some (a, r)) :
    collect item.parse s = (a :: (collect item.parse r).1, (collect item.parse r).2) := by
  have hshorter : r.length < s.length :=
    Nat.lt_of_lt_of_le (hitem h) (skipBlanks_suffix s).length_le
  rw [collect, h]
  simp only [if_pos hshorter]

/-- White space in front does not matter. -/
theorem Advances.collect_congr (hitem : item.Advances) {s' : List Char}
    (h : skipBlanks s = skipBlanks s') :
    (collect item.parse s).1 = (collect item.parse s').1 ∧
      skipBlanks (collect item.parse s).2 = skipBlanks (collect item.parse s').2 := by
  cases hparse : item.parse (skipBlanks s) with
  | none =>
    rw [collect_of_rejects hparse, collect_of_rejects (h ▸ hparse)]
    exact ⟨rfl, h⟩
  | some result =>
    obtain ⟨a, r⟩ := result
    have hparse' : item.parse (skipBlanks s') = some (a, r) := h ▸ hparse
    rw [hitem.collect_eq hparse, hitem.collect_eq hparse']
    exact ⟨rfl, rfl⟩

theorem exhausts_iff_of_rejects (h : item.Rejects (skipBlanks s)) :
    item.Exhausts s ↔ skipBlanks s = [] := by
  rw [Exhausts, collect_of_rejects h]

theorem Advances.exhausts_iff (hitem : item.Advances)
    (h : item.parse (skipBlanks s) = some (a, r)) : item.Exhausts s ↔ item.Exhausts r := by
  rw [Exhausts, hitem.collect_eq h, Exhausts]

theorem Advances.exhausts_congr (hitem : item.Advances) {s' : List Char}
    (h : skipBlanks s = skipBlanks s') : item.Exhausts s ↔ item.Exhausts s' := by
  rw [Exhausts, (hitem.collect_congr h).2, Exhausts]

theorem rejects_orElse_iff {first second : Phrase α} :
    (first <|> second).Rejects s ↔ first.Rejects s ∧ second.Rejects s := by
  change (Phrase.choice first second).parse s = none ↔ _
  rw [parse]
  split
  · next h => simp [Rejects, h]
  · next h => simp [Rejects, h]

theorem rejects_map_iff {f : α → β} : (f <$> item).Rejects s ↔ item.Rejects s :=
  Option.map_eq_none_iff

theorem parse_map_orElse {f : α → β} {other : Phrase β} (h : item.parse s = some (a, r)) :
    (f <$> item <|> other).parse s = some (f a, r) := by
  change (Phrase.choice (Phrase.map f item) other).parse s = _
  rw [parse, parse, h]
  rfl

theorem parse_orElse_of_rejects {first second : Phrase α} (h : first.Rejects s) :
    (first <|> second).parse s = second.parse s := by
  change (Phrase.choice first second).parse s = _
  rw [parse, h]

end Phrase

/-! ## The catch-all grammar -/

section CatchAll

variable {s t r : List Char}

theorem catchAll_of_comment {text : String} (h : comment.parse s = some (text, r)) :
    catchAllDeclaration.parse s = some ((), r) :=
  Phrase.parse_map_orElse h

theorem catchAll_semicolon (r : List Char) :
    catchAllDeclaration.parse (';' :: r) = some ((), r) :=
  rfl

theorem catchAll_of_opaqueDeclaration (hcomment : comment.Rejects s)
    (h : opaqueDeclaration s = some (t, r)) : catchAllDeclaration.parse s = some ((), r) := by
  have hsemicolon : (punctuation ';').Rejects s := by
    cases s with
    | nil => rfl
    | cons c s =>
      refine .mark ?_
      rintro rfl
      -- An opaque declaration does not begin with the semicolon that ends it.
      rw [opaqueDeclaration, opaqueRun, if_pos (by decide)] at h
      cases h
  have hopaque : opaqueToken.parse s = some (String.ofList t, r) := by
    rw [opaqueToken, Phrase.parse, h]
    rfl
  rw [catchAllDeclaration, Phrase.parse_orElse_of_rejects (Phrase.rejects_map_iff.2 hcomment),
    Phrase.parse_orElse_of_rejects (Phrase.rejects_map_iff.2 hsemicolon)]
  exact congrArg (Option.map fun split => ((), split.2)) hopaque

theorem catchAll_advances : catchAllDeclaration.Advances := by
  intro s r a h
  have hlength : ∀ {t : List Char}, t ≠ [] → r.length < (t ++ r).length := fun hne => by
    have hpos := List.length_pos_iff.2 hne
    rw [List.length_append]
    omega
  obtain ⟨text, hparse, -⟩ | h := Phrase.of_map_orElse h
  · obtain ⟨t, rfl, hspells⟩ := Phrase.exists_spells _ comment_splits hparse
    exact hlength (comment_ne_nil (comment_hasParts.inTurn hspells))
  obtain ⟨_, hparse, -⟩ | h := Phrase.of_map_orElse h
  · obtain ⟨t, rfl, rfl⟩ := Phrase.exists_spells (punctuation ';') trivial hparse
    exact hlength (List.cons_ne_nil _ _)
  obtain ⟨text, hparse, -⟩ := Phrase.of_map h
  obtain ⟨t, rfl, htakes, -⟩ := Phrase.exists_spells _ opaqueToken_splits hparse
  exact hlength (htakes.ne_nil opaqueDeclaration_splits)

theorem declaration_advances : declaration.Advances := by
  intro s r a h
  obtain ⟨t, rfl, -⟩ := Phrase.exists_spells _ declaration_splits h
  have hpos : 0 < t.length := by
    cases declaration_entry h with
    | value hne _ => exact List.length_pos_iff.2 hne
    | empty => exact Nat.one_pos
  rw [List.length_append]
  omega

/-- What no declaration matches, the catch-all grammar does not match either. -/
theorem catchAll_rejects (h : declaration.Rejects s) : catchAllDeclaration.Rejects s := by
  simp only [declaration, Phrase.rejects_orElse_iff, Phrase.rejects_map_iff] at h
  simp only [catchAllDeclaration, Phrase.rejects_orElse_iff, Phrase.rejects_map_iff]
  obtain ⟨hcomment, -, -, -, -, -, -, -, hsemicolon, hopaque⟩ := h
  exact ⟨hcomment, hsemicolon, hopaque⟩

end CatchAll

/-! ## Texts that are skipped -/

/-- The catch-all grammar takes up a text with this one in front exactly if it takes up what
follows. -/
def Skipped : Reading := fun t r =>
  ¬ emptyComment <:+: t →
    (catchAllDeclaration.Exhausts (t ++ r) ↔ catchAllDeclaration.Exhausts r)

section Skipped

variable {t r : List Char}

theorem skipBlanks_append {w : List Char} (h : ∀ c ∈ w, isBlank c) (r : List Char) :
    skipBlanks (w ++ r) = skipBlanks r :=
  List.dropWhile_append_of_pos h

theorem skipped_isKept : IsKept Skipped where
  blanks h r := fun _ => catchAll_advances.exhausts_congr (skipBlanks_append h r)
  append {t u r} h h' := by
    intro hempty
    have ht : ¬ emptyComment <:+: t := fun hwithin =>
      hempty (hwithin.trans (List.prefix_append t u).isInfix)
    have hu : ¬ emptyComment <:+: u := fun hwithin =>
      hempty (hwithin.trans (List.suffix_append t u).isInfix)
    rw [List.append_assoc]
    exact (h ht).trans (h' hu)

theorem exhausts_iff_of_parse (hfront : skipBlanks (t ++ r) = t ++ r)
    (h : catchAllDeclaration.parse (t ++ r) = some ((), r)) :
    catchAllDeclaration.Exhausts (t ++ r) ↔ catchAllDeclaration.Exhausts r := by
  rw [← hfront] at h
  exact catchAll_advances.exhausts_iff h

theorem skipped_semicolon (r : List Char) : Skipped [';'] r :=
  fun _ => exhausts_iff_of_parse rfl (catchAll_semicolon r)

/-- A documentation comment is no other block comment than the one that begins there, unless that is
empty. -/
theorem blockComment_of_docComment {s : List Char} (h : docComment s = some (t, r))
    (hempty : ¬ emptyComment <+: t) : blockComment s = some (t, r) := by
  unfold docComment at h
  split at h
  · next s =>
    obtain ⟨⟨t', r'⟩, ht, hr⟩ := Option.map_eq_some_iff.1 h
    cases hr
    obtain ⟨rfl, hne⟩ := throughCommentEnd_splits ht
    have hopen : ∀ rest, '*' = '*' → t' ++ r = '/' :: rest → False := by
      intro rest _ hslash
      cases t' with
      | nil => exact hne rfl
      | cons d t' =>
        obtain ⟨rfl, -⟩ := List.cons.inj hslash
        exact hempty ⟨t', rfl⟩
    rw [blockComment, throughCommentEnd.eq_3 _ _ hopen, ht]
    rfl
  · cases h

/-- A comment is what the first scan that matches takes. -/
theorem comment_parse (s : List Char) :
    comment.parse s = (orElse docComment (orElse blockComment lineComment) s).map
      fun split => (String.ofList split.1, split.2) := by
  change (Phrase.choice (Phrase.lexeme _ _) (Phrase.choice (Phrase.lexeme _ _)
    (Phrase.lexeme _ _))).parse s = _
  simp only [Phrase.parse, orElse]
  cases docComment s with
  | some split => rfl
  | none =>
    cases blockComment s with
    | some split => rfl
    | none => rfl

theorem skipped_of_comment (hslash : ∃ s, t = '/' :: s)
    (h : orElse docComment (orElse blockComment lineComment) (t ++ r) = some (t, r)) :
    catchAllDeclaration.Exhausts (t ++ r) ↔ catchAllDeclaration.Exhausts r := by
  obtain ⟨s, rfl⟩ := hslash
  have hparse : comment.parse ('/' :: s ++ r) = some (String.ofList ('/' :: s), r) := by
    rw [comment_parse, h]
    rfl
  exact exhausts_iff_of_parse rfl (catchAll_of_comment hparse)

theorem skipped_of_lineComment (h : Takes lineComment t r) : Skipped t r := by
  obtain ⟨s, rfl⟩ := lineComment_eq_cons h
  have hdoc : docComment ('/' :: '/' :: s ++ r) = none := rfl
  have hblock : blockComment ('/' :: '/' :: s ++ r) = none := rfl
  refine fun _ => skipped_of_comment ⟨_, rfl⟩ ?_
  rw [orElse, hdoc]
  simp only [orElse, hblock]
  exact h

theorem skipped_of_blockComment (h : Takes blockComment t r) : Skipped t r := by
  intro hempty
  obtain ⟨s, rfl⟩ := blockComment_eq_cons h
  have hblock : blockComment ('/' :: '*' :: s ++ r) = some ('/' :: '*' :: s, r) := h
  have hothers : orElse blockComment lineComment ('/' :: '*' :: s ++ r) =
      some ('/' :: '*' :: s, r) := by
    rw [orElse, hblock]
  refine skipped_of_comment ⟨_, rfl⟩ ?_
  unfold orElse
  split
  · next split hdoc =>
    obtain ⟨t', r'⟩ := split
    obtain ⟨happend, -⟩ := docComment_splits hdoc
    have hnot : ¬ emptyComment <+: t' := fun hbegins => by
      have hbegins' := hbegins.trans (List.prefix_append t' r')
      rw [happend] at hbegins'
      exact hempty (eq_emptyComment h hbegins' ▸ List.infix_rfl)
    exact (blockComment_of_docComment hdoc hnot).symm.trans h
  · exact hothers

theorem closing_skipped (h : InTurn [.comments, .mark ';'] t r) : Skipped t r := by
  refine h.along skipped_isKept (.cons ?_ (.cons ?_ .nil))
  · exact comments_along skipped_isKept (fun _ _ => skipped_of_lineComment)
      fun _ _ => skipped_of_blockComment
  · rintro t r rfl
    exact skipped_semicolon r

end Skipped

/-! ## Texts that are caught -/

/-- An opaque declaration takes the text up to a part that is skipped. -/
def Caught : Reading := fun t r =>
  ∃ u x, t = u ++ x ∧ Takes opaqueDeclaration u (x ++ r) ∧ Skipped x r

section Caught

variable {t u r : List Char}

theorem opaqueDeclaration_takes (hne : t ≠ []) (h : Chunks t (u ++ r)) (hu : Reading.ending u r) :
    Takes opaqueDeclaration (t ++ u) r := by
  have hrun := h.opaqueRun_eq
  cases t with
  | nil => exact absurd rfl hne
  | cons c t =>
    obtain rfl | hbody := hu
    · have hstop : opaqueRun ([';'] ++ r) = ([], ';' :: r) := by
        rw [List.singleton_append, opaqueRun, if_pos (by decide)]
      rw [hstop, List.append_nil] at hrun
      rw [Takes, List.append_assoc, opaqueDeclaration, hrun]
      rfl
    · obtain ⟨s, rfl, -⟩ := body_eq_cons hbody
      have hstop : opaqueRun ('{' :: s ++ r) = ([], '{' :: s ++ r) := by
        rw [List.cons_append, opaqueRun, if_pos (by decide)]
      rw [hstop, List.append_nil] at hrun
      rw [Takes, List.append_assoc, opaqueDeclaration, hrun]
      change (body ('{' :: s ++ r)).map _ = _
      rw [show body _ = _ from hbody]
      rfl

theorem caught_of_inTurn {word : String} {parts : List Reading} {last : Reading}
    (hword : word.toList ≠ []) (hparts : Along Chunks (.word word :: parts))
    (hlast : ∀ t r, last t r → Reading.ending t r)
    (h : InTurn (.word word :: parts ++ [last]) t r) : Caught t r := by
  obtain ⟨t₁, w, t₂, rfl, hw, h₁, h₂⟩ :=
    h.of_append (List.cons_ne_nil _ _) (List.cons_ne_nil _ _)
  have hne : t₁ ++ w ≠ [] := List.append_ne_nil_of_left_ne_nil (h₁.ne_nil_of_word hword) w
  have hchunks : Chunks (t₁ ++ w) (t₂ ++ r) :=
    (h₁.along chunks_isKept hparts).append (chunks_isKept.blanks hw _)
  refine ⟨t₁ ++ (w ++ t₂), [], by simp, ?_, skipped_isKept.nil r⟩
  rw [← List.append_assoc]
  exact opaqueDeclaration_takes hne hchunks (hlast _ _ h₂)

theorem Caught.append {x : List Char} (h : Caught t (x ++ r)) (hx : Skipped x r) :
    Caught (t ++ x) r := by
  obtain ⟨u, y, rfl, htakes, hy⟩ := h
  exact ⟨u, y ++ x, by simp, by simpa using htakes, skipped_isKept.append hy hx⟩

theorem optionHead_chunks (name : String) : Along Chunks (optionHead name) :=
  .cons (word_chunks (by decide)) <| .cons comments_chunks <|
    .cons (verbatim_chunks optionName_isLoose) <| .cons comments_chunks <|
    .cons (mark_chunks rfl) <| .cons comments_chunks .nil

/-- After a block as constant, the semicolon of the option is left to be skipped. -/
theorem option_caught {option : String × String} (h : InTurn (optionParts option) t r) :
    Caught t r := by
  have hword : "option".toList ≠ [] := by decide
  obtain ⟨t₁, w, t₂, rfl, hw, h₁, h₂⟩ := h.of_append (List.cons_ne_nil _ _) (List.cons_ne_nil _ _)
  obtain ⟨t₃, w', t₄, rfl, hw', h₃, h₄⟩ := h₂
  -- A block is where an opaque declaration ends, any other constant is run over.
  obtain hchunks | hbody := constant_chunks h₃
  · have hall : InTurn (optionHead option.1 ++ [Chunks, .comments, .mark ';'])
        (t₁ ++ (w ++ (t₃ ++ (w' ++ t₄)))) r :=
      InTurn.append (List.cons_ne_nil _ _) (List.cons_ne_nil _ _) h₁ hw
        ⟨t₃, w', t₄, rfl, hw', hchunks, h₄⟩
    have hparts : Along Chunks (optionHead option.1 ++ [Chunks, .comments]) :=
      (optionHead_chunks option.1).append (.cons (fun _ _ h => h) (.cons comments_chunks .nil))
    exact caught_of_inTurn hword hparts (fun _ _ => .inl) hall
  · have hfront : InTurn (optionHead option.1 ++ [Takes body]) (t₁ ++ (w ++ t₃))
        (w' ++ (t₄ ++ r)) :=
      InTurn.append (List.cons_ne_nil _ _) (List.cons_ne_nil _ _) (by simpa using h₁) hw hbody
    have hcaught : Caught (t₁ ++ (w ++ t₃)) ((w' ++ t₄) ++ r) := by
      rw [List.append_assoc]
      exact caught_of_inTurn hword (optionHead_chunks option.1) (fun _ _ => .inr) hfront
    have hskipped : Skipped (w' ++ t₄) r :=
      skipped_isKept.append (skipped_isKept.blanks hw' (t₄ ++ r)) (closing_skipped h₄)
    simpa using hcaught.append hskipped

end Caught

/-! ## Services -/

section Services

variable {t r : List Char}

theorem comment_balanced {text : String} (h : Reading.comment text t r)
    (hempty : ¬ emptyComment <:+: t) : Balanced t r := by
  obtain ⟨-, h | ⟨-, h | h⟩⟩ := h
  · exact (chunks_of_blockComment
      (blockComment_of_docComment h fun hbegins => hempty hbegins.isInfix)).balanced
  · exact (chunks_of_blockComment h).balanced
  · exact (chunks_of_lineComment h).balanced

theorem rpc_balanced {signature : RpcSignature} (h : InTurn (rpcParts signature) t r) :
    Balanced t r := by
  have hopening : Along Chunks [.comments, .word "returns", .comments] :=
    .cons comments_chunks <| .cons (word_chunks (by decide)) <| .cons comments_chunks .nil
  have hchunks : Along Chunks (headingParts "rpc" signature.name ++
      (parenthesizedParts signature.requestType ++ [.comments, .word "returns", .comments] ++
        parenthesizedParts signature.responseType)) :=
    (heading_chunks (by decide)).append
      (((parenthesized_chunks _).append hopening).append (parenthesized_chunks _))
  have hending : Along Balanced [.comments, .ending] :=
    .cons (fun t r ht => (comments_chunks t r ht).balanced) (.cons ending_balanced .nil)
  exact h.along balanced_isKept ((hchunks.mono Chunks.balanced).append hending)

theorem option_balanced {option : String × String} (h : InTurn (optionParts option) t r) :
    Balanced t r := by
  have hconstant : ∀ t r, Reading.constant option.2 t r → Balanced t r := fun t r ht =>
    (constant_chunks ht).elim Chunks.balanced balanced_of_body
  have hclosing : Along Balanced [.constant option.2, .comments, .mark ';'] :=
    .cons hconstant <| .cons (fun t r ht => (comments_chunks t r ht).balanced) <|
      .cons (fun t r ht => ending_balanced t r (.inl ht)) .nil
  have hhead : Along Balanced (optionHead option.1) :=
    (optionHead_chunks option.1).mono Chunks.balanced
  exact h.along balanced_isKept (hhead.append hclosing)

theorem serviceItem_balanced {item : ServiceItem} (h : item.ReadFrom t r)
    (hempty : ¬ emptyComment <:+: t) : Balanced t r := by
  cases h with
  | comment h => exact comment_balanced h.inTurn hempty
  | rpc h => exact rpc_balanced h.inTurn
  | option h => exact option_balanced h.inTurn
  | opaqueText h => exact balanced_of_opaqueDeclaration h

theorem separator_balanced {g : List Char} (h : IsSeparator g) (r : List Char) : Balanced g r := by
  induction g with
  | nil => exact .nil r
  | cons c g ih =>
    obtain ⟨hc, hg⟩ := List.forall_mem_cons.1 h
    have hhead : Balanced [c] (g ++ r) := by
      obtain hc | rfl := hc
      · exact balanced_isKept.blanks (fun d hd => List.mem_singleton.1 hd ▸ hc) _
      · exact balanced_semicolon _
    exact hhead.append (ih hg)

theorem items_balanced {items : List ServiceItem}
    (h : Decomposes ServiceItem.ReadFrom items t r) (hempty : ¬ emptyComment <:+: t) :
    Balanced t r := by
  induction h with
  | nil hg => exact separator_balanced hg _
  | @cons g t u r item items hg _ hread _ ih =>
    have ht : ¬ emptyComment <:+: t := fun hwithin => hempty (hwithin.trans ⟨g, u, by simp⟩)
    have hu : ¬ emptyComment <:+: u := fun hwithin => hempty (hwithin.trans ⟨g ++ t, [], by simp⟩)
    exact (separator_balanced hg _).append
      ((serviceItem_balanced hread ht).append (ih hu))

/-- The items of a service and the braces around them are a block. -/
theorem service_caught {name : String} {items : List ServiceItem} {head inner : List Char}
    (hhead : InTurn (headingParts "service" name ++ [.mark '{']) head (inner ++ '}' :: r))
    (hitems : Decomposes ServiceItem.ReadFrom items inner ('}' :: r))
    (hempty : ¬ emptyComment <:+: inner) : Caught (head ++ (inner ++ ['}'])) r := by
  obtain ⟨t₁, w, _, rfl, hw, h₁, rfl⟩ :=
    hhead.of_append (List.cons_ne_nil _ _) (List.cons_ne_nil _ _)
  have hbody := (items_balanced hitems hempty).takes_body
  have hall : InTurn (headingParts "service" name ++ [Takes body])
      (t₁ ++ (w ++ '{' :: (inner ++ ['}']))) r :=
    InTurn.append (List.cons_ne_nil _ _) (List.cons_ne_nil _ _) (by simpa using h₁) hw hbody
  have hcaught : Caught (t₁ ++ (w ++ '{' :: (inner ++ ['}']))) r :=
    caught_of_inTurn (by decide) (heading_chunks (by decide)) (fun _ _ => .inr) hall
  simpa using hcaught

end Services

/-! ## The same texts are accepted -/

section Accepted

variable {s t r : List Char}

theorem version_caught {word : String} (hword : word.toList ≠ [])
    (hloose : word.toList.all isLooseChar) (h : InTurn (versionParts word) t r) :
    Caught t r := by
  have hparts : Along Chunks [.word word, .mark '=', Takes quotedText] :=
    .cons (word_chunks hloose) <| .cons (mark_chunks rfl) <|
      .cons (fun _ _ => chunks_of_quotedText) .nil
  exact caught_of_inTurn hword hparts (fun _ _ => .inl) h

theorem import_caught {path : String} (h : InTurn (importParts path) t r) : Caught t r := by
  have hmodifier : ∀ t r, Reading.modifier t r → Chunks t r := by
    rintro t r (h | h | rfl)
    · exact word_chunks (by decide) t r h
    · exact word_chunks (by decide) t r h
    · exact .nil
  have hparts : Along Chunks
      [.word "import", .comments, .modifier, .comments, .quoted path, .comments] :=
    .cons (word_chunks (by decide)) <| .cons comments_chunks <| .cons hmodifier <|
      .cons comments_chunks <| .cons (fun _ _ h => chunks_of_quotedText h.2) <|
      .cons comments_chunks .nil
  exact caught_of_inTurn (by decide) hparts (fun _ _ => .inl) h

theorem package_caught {package : String} (h : InTurn (packageParts package) t r) :
    Caught t r := by
  have hparts : Along Chunks
      [.word "package", .comments, .verbatim dottedName package, .comments] :=
    .cons (word_chunks (by decide)) <| .cons comments_chunks <|
      .cons (verbatim_chunks dottedName_isLoose) <| .cons comments_chunks .nil
  exact caught_of_inTurn (by decide) hparts (fun _ _ => .inl) h

/-- Whatever is read where no comment begins, an opaque declaration takes too. -/
theorem readFrom_caught {d : Declaration} (h : d.ReadFrom t r)
    (hcomment : comment.Rejects (t ++ r)) (hempty : ¬ emptyComment <:+: t) : Caught t r := by
  cases h with
  | importing h => exact import_caught h.inTurn
  | package h => exact package_caught h.inTurn
  | option h => exact option_caught h.inTurn
  | comment h => cases hcomment.symm.trans h.parse
  | message h =>
    exact caught_of_inTurn (by decide) (heading_chunks (by decide)) (fun _ _ => .inr) h.inTurn
  | @service _ _ head inner _ _ hhead hitems =>
    exact service_caught hhead hitems fun hwithin => hempty (hwithin.trans ⟨head, ['}'], by simp⟩)
  | syntaxVersion h => exact version_caught (by decide) (by decide) h.inTurn
  | edition h => exact version_caught (by decide) (by decide) h.inTurn
  | opaqueText h => exact ⟨t, [], by simp, h, skipped_isKept.nil r⟩

/-- What is parsed in front of a text makes no difference to the catch-all grammar. -/
theorem catchAll_exhausts_iff (hfront : skipBlanks (t ++ r) = t ++ r) {a : Option Declaration}
    (h : declaration.parse (t ++ r) = some (a, r)) (hempty : ¬ emptyComment <:+: t) :
    catchAllDeclaration.Exhausts (t ++ r) ↔ catchAllDeclaration.Exhausts r := by
  -- Both grammars try comments first, so what no comment begins is left to the opaque declaration.
  cases hcomment : comment.parse (t ++ r) with
  | some split =>
    obtain ⟨text, r'⟩ := split
    have hparse : declaration.parse (t ++ r) = some (some (.comment text), r') :=
      Phrase.parse_map_orElse hcomment
    obtain rfl : r' = r := congrArg Prod.snd (Option.some.inj (hparse.symm.trans h))
    exact exhausts_iff_of_parse hfront (catchAll_of_comment hcomment)
  | none =>
    cases declaration_entry h with
    | value _ hread =>
      obtain ⟨u, x, rfl, htakes, hskipped⟩ := readFrom_caught hread hcomment hempty
      have hx : ¬ emptyComment <:+: x := fun hwithin =>
        hempty (hwithin.trans (List.suffix_append u x).isInfix)
      rw [List.append_assoc] at hfront hcomment ⊢
      have hparse := catchAll_of_opaqueDeclaration hcomment htakes
      exact (exhausts_iff_of_parse hfront hparse).trans (hskipped hx)
    | empty => exact exhausts_iff_of_parse hfront (catchAll_semicolon r)

/-- The induction is on the text that is left: both grammars reject it, or what the one takes off,
the other takes off as well, if in smaller pieces. -/
theorem exhausts_iff (hempty : ¬ emptyComment <:+: s) :
    declaration.Exhausts s ↔ catchAllDeclaration.Exhausts s := by
  induction hlength : s.length using Nat.strongRecOn generalizing s with
  | ind n ih =>
    subst hlength
    cases hparse : declaration.parse (skipBlanks s) with
    | none =>
      rw [Phrase.exhausts_iff_of_rejects hparse,
        Phrase.exhausts_iff_of_rejects (catchAll_rejects hparse)]
    | some split =>
      obtain ⟨a, r⟩ := split
      obtain ⟨t, ht, -⟩ := Phrase.exists_spells _ declaration_splits hparse
      have hsuffix := skipBlanks_suffix s
      have hshorter := declaration_advances hparse
      rw [ht] at hparse hsuffix hshorter
      have hr : ¬ emptyComment <:+: r := fun hwithin =>
        hempty (hwithin.trans ((List.suffix_append t r).trans hsuffix).isInfix)
      have ht' : ¬ emptyComment <:+: t := fun hwithin =>
        hempty ((hwithin.trans (List.prefix_append t r).isInfix).trans hsuffix.isInfix)
      have hfront : skipBlanks (t ++ r) = t ++ r := by rw [← ht, skipBlanks_skipBlanks]
      calc declaration.Exhausts s
        _ ↔ declaration.Exhausts r := declaration_advances.exhausts_iff (ht ▸ hparse)
        _ ↔ catchAllDeclaration.Exhausts r :=
          ih r.length (Nat.lt_of_lt_of_le hshorter hsuffix.length_le) hr rfl
        _ ↔ catchAllDeclaration.Exhausts (t ++ r) := (catchAll_exhausts_iff hfront hparse ht').symm
        _ ↔ catchAllDeclaration.Exhausts s := catchAll_advances.exhausts_congr (by rw [hfront, ht])

end Accepted

end Grammar

open Grammar

/-- The rules for modelled declarations do not decide whether a text is accepted: without an empty
comment in it, it is accepted exactly if comments, semicolons and opaque declarations make it up. -/
theorem parseDeclarations_ok_iff_catchAll {source : String}
    (hempty : ¬ "/**/".toList <:+: source.toList) :
    (∃ ds, parseDeclarations source = .ok ds) ↔
      ∃ r, catchAllFile.parse source.toList = some ((), r) := by
  have hfile : (∃ ds, parseDeclarations source = .ok ds) ↔
      ∃ split, file.parse source.toList = some split := by
    unfold parseDeclarations
    split
    · next hparse => simp [hparse]
    · next hparse => simp [hparse]
  have hcatchAll : (∃ r, catchAllFile.parse source.toList = some ((), r)) ↔
      ∃ split, catchAllFile.parse source.toList = some split :=
    ⟨fun ⟨r, h⟩ => ⟨((), r), h⟩, fun ⟨split, h⟩ => ⟨split.2, h⟩⟩
  rw [hfile, hcatchAll]
  exact (Phrase.exists_parse_whole_iff _).trans
    ((exhausts_iff hempty).trans (Phrase.exists_parse_whole_iff _).symm)

/-- An option with a block and a comment behind it, and a service. -/
theorem catchAll_accepts_option :
    ¬ "/**/".toList <:+: "option o=\x7b\x7d/*c*/;service S\x7b\x7d".toList ∧
      ∃ r, catchAllFile.parse "option o=\x7b\x7d/*c*/;service S\x7b\x7d".toList = some ((), r) := by
  have hempty : ¬ "/**/".toList <:+: "option o=\x7b\x7d/*c*/;service S\x7b\x7d".toList := by
    simp [List.infix_cons_iff]
  have hparse : parseDeclarations "option o=\x7b\x7d/*c*/;service S\x7b\x7d" =
      .ok [.option "o" "\x7b\x7d", .service "S" []] := by cbv
  exact ⟨hempty, (parseDeclarations_ok_iff_catchAll hempty).1 ⟨_, hparse⟩⟩

end RpcCatalog
