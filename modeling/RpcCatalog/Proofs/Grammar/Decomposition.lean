import Mathlib
import RpcCatalog.Grammar.SyntaxError
import RpcCatalog.Proofs.Grammar.Rendering
import RpcCatalog.Proofs.Grammar.Spelling

/-!
# Decomposition

A text that is parsed is cut into the texts of its declarations, with nothing but white space and
semicolons in between, and the text of a declaration into parts among which are, in order and as
written, the texts that the declaration holds.

* `Reading`: what a part may be, where another text follows. `InTurn`: parts with white space in
  between.
* `Phrase.HasParts`: a phrase is made of such parts, put together combinator by combinator.
* `Declaration.ReadFrom`, `ServiceItem.ReadFrom`: the texts of a declaration, by its kind.
* `parseDeclarations_decomposes`: whatever is parsed decomposes.
-/

set_option autoImplicit false

namespace RpcCatalog

namespace Grammar

open Phrase (Series)

/-! ## Parts -/

/-- What a part of a text may be, where another text follows it. -/
abbrev Reading := List Char → List Char → Prop

namespace Reading

/-- The text as written, which the scan takes as a whole. -/
def verbatim (scan : Scan) (text : String) : Reading := fun t r => t = text.toList ∧ Takes scan t r

def word (w : String) : Reading := verbatim (wholeWord w.toList) w

def mark (c : Char) : Reading := fun t _ => t = [c]

/-- The text in quotes. -/
def quoted (text : String) : Reading := fun t r =>
  (∃ quote, (quote = '"' ∨ quote = '\'') ∧ t = quote :: (text.toList ++ [quote])) ∧
    Takes quotedText t r

/-- A comment as written. A comment that a documentation comment begins is no other one. -/
def comment (text : String) : Reading := fun t r =>
  t = text.toList ∧ (Takes docComment t r ∨
    docComment (t ++ r) = none ∧ (Takes blockComment t r ∨ Takes lineComment t r))

/-- Any number of comments that belong to no one. -/
inductive comments : Reading where
  | nil {r : List Char} : comments [] r
  | cons {w t u r : List Char} (blank : ∀ c ∈ w, isBlank c)
    (h : Takes lineComment t (u ++ r) ∨ Takes blockComment t (u ++ r)) (rest : comments u r) :
    comments (w ++ (t ++ u)) r

/-- One of the words `weak` and `public`, or nothing. -/
def modifier : Reading := fun t r => word "weak" t r ∨ word "public" t r ∨ t = []

/-- The constant of an option; only a literal has lost its quotes. -/
def constant (value : String) : Reading := fun t r =>
  quoted value t r ∨ verbatim body value t r ∨ verbatim number value t r ∨
    verbatim signedName value t r ∨ verbatim dottedName value t r

/-- How a call ends. -/
def ending : Reading := fun t r => mark ';' t r ∨ Takes body t r

end Reading

/-- The text is made of parts, in order, with white space alone between them. -/
def InTurn : List Reading → Reading
  | [], t, _ => t = []
  | [part], t, r => part t r
  | part :: part' :: parts, t, r =>
    ∃ t₁ w t₂, t = t₁ ++ (w ++ t₂) ∧ (∀ c ∈ w, isBlank c) ∧ part t₁ (w ++ (t₂ ++ r)) ∧
      InTurn (part' :: parts) t₂ r

theorem InTurn.append {parts parts' : List Reading} (hne : parts ≠ []) (hne' : parts' ≠ [])
    {t w t' r : List Char} (h : InTurn parts t (w ++ (t' ++ r))) (hw : ∀ c ∈ w, isBlank c)
    (h' : InTurn parts' t' r) : InTurn (parts ++ parts') (t ++ (w ++ t')) r := by
  induction parts generalizing t with
  | nil => exact absurd rfl hne
  | cons part parts ih =>
    cases parts with
    | nil =>
      cases parts' with
      | nil => exact absurd rfl hne'
      | cons => exact ⟨t, w, t', rfl, hw, h, h'⟩
    | cons =>
      obtain ⟨t₁, v, t₂, rfl, hv, hpart, hrest⟩ := h
      refine ⟨t₁, v, t₂ ++ (w ++ t'), by simp, hv, by simpa using hpart, ?_⟩
      exact ih (List.cons_ne_nil _ _) hrest

theorem InTurn.ne_nil_of_word {w : String} (hw : w.toList ≠ []) {parts : List Reading}
    {t r : List Char} (h : InTurn (.word w :: parts) t r) : t ≠ [] := by
  cases parts with
  | nil => exact h.1 ▸ hw
  | cons =>
    obtain ⟨t₁, v, t₂, rfl, -, ⟨rfl, -⟩, -⟩ := h
    exact List.append_ne_nil_of_left_ne_nil hw _

/-! ## Parts of phrases -/

/-- Each text of the phrase is made of parts, which depend on the value that it stands for. -/
structure Phrase.HasParts {α : Type} (phrase : Phrase α) (parts : α → List Reading) : Prop where
  ne_nil : ∀ a, parts a ≠ []
  inTurn : ∀ {t r : List Char} {a : α}, phrase.Spells t r a → InTurn (parts a) t r

/-- The text is a whole match of a phrase, for a value, and made of parts. -/
structure Production {α : Type} (phrase : Phrase α) (a : α) (parts : List Reading)
    (t r : List Char) : Prop where
  parse : phrase.parse (t ++ r) = some (a, r)
  inTurn : InTurn parts t r

namespace Phrase

variable {α β γ : Type} {first : Phrase α} {second : Phrase β}

theorem Spells.verbatim {rule : Rule} {scan : Scan} {t r : List Char} {text : String}
    (h : (lexeme rule scan).Spells t r text) : Reading.verbatim scan text t r := by
  obtain ⟨htakes, rfl⟩ := h
  exact ⟨String.toList_ofList.symm, htakes⟩

theorem HasParts.lexeme (rule : Rule) (scan : Scan) :
    (lexeme rule scan).HasParts fun text => [.verbatim scan text] where
  ne_nil _ := List.cons_ne_nil _ _
  inTurn := Spells.verbatim

theorem HasParts.lexeme_text (rule : Rule) (scan : Scan) :
    (Phrase.lexeme rule scan).HasParts fun _ => [Takes scan] where
  ne_nil _ := List.cons_ne_nil _ _
  inTurn h := h.1

theorem HasParts.seq {combine : α → β → γ} {parts : α → List Reading} {parts' : β → List Reading}
    {parts'' : γ → List Reading} (h : first.HasParts parts) (h' : second.HasParts parts')
    (hparts : ∀ a b, parts'' (combine a b) = parts a ++ parts' b) (hne : ∀ c, parts'' c ≠ []) :
    (Phrase.seq combine first second).HasParts parts'' where
  ne_nil := hne
  inTurn := by
    rintro _ r _ ⟨t₁, w, t₂, a, b, rfl, hw, hfirst, hsecond, rfl⟩
    rw [hparts]
    exact InTurn.append (h.ne_nil a) (h'.ne_nil b) (h.inTurn hfirst) hw (h'.inTurn hsecond)

theorem HasParts.seqRight {parts : List Reading} {parts' : β → List Reading}
    (h : first.HasParts fun _ => parts) (h' : second.HasParts parts') :
    (first *> second).HasParts fun b => parts ++ parts' b :=
  h.seq h' (fun _ _ => rfl) fun b => List.append_ne_nil_of_right_ne_nil parts (h'.ne_nil b)

theorem HasParts.seqLeft {parts : α → List Reading} {parts' : List Reading}
    (h : first.HasParts parts) (h' : second.HasParts fun _ => parts') :
    (first <* second).HasParts fun a => parts a ++ parts' :=
  h.seq h' (fun _ _ => rfl) fun a => List.append_ne_nil_of_left_ne_nil (h.ne_nil a) parts'

theorem HasParts.named {rule : Rule} {parts : α → List Reading} (h : first.HasParts parts) :
    (named rule first).HasParts parts where
  ne_nil := h.ne_nil
  inTurn hspells := h.inTurn hspells

/-- What is parsed is a whole match of the phrase. -/
theorem HasParts.production {parts : α → List Reading} (h : first.HasParts parts)
    (hsplits : first.Splits) {t r : List Char} {a : α}
    (hparse : first.parse (t ++ r) = some (a, r)) :
    Production first a (parts a) t r := by
  obtain ⟨t', happend, hspells⟩ := exists_spells first hsplits hparse
  obtain rfl := List.append_cancel_right happend
  exact ⟨hparse, h.inTurn hspells⟩

theorem of_map {f : α → β} {s r : List Char} {b : β} (h : (f <$> first).parse s = some (b, r)) :
    ∃ a, first.parse s = some (a, r) ∧ f a = b := by
  obtain ⟨⟨a, r'⟩, hparse, heq⟩ := Option.map_eq_some_iff.1 h
  cases heq
  exact ⟨a, hparse, rfl⟩

/-- An alternative that matches: either the first, for a value that stands for the whole, or one of
the others. -/
theorem of_map_orElse {f : α → β} {other : Phrase β} {s r : List Char} {b : β}
    (h : (f <$> first <|> other).parse s = some (b, r)) :
    (∃ a, first.parse s = some (a, r) ∧ f a = b) ∨ other.parse s = some (b, r) := by
  change (Phrase.choice (Phrase.map f first) other).parse s = some (b, r) at h
  rw [parse] at h
  split at h
  · next hmap =>
    cases h
    exact .inl (of_map hmap)
  · exact .inr h

end Phrase

/-! ### Tokens -/

theorem word_of_takes {w : String} {t r : List Char} (h : Takes (wholeWord w.toList) t r) :
    Reading.word w t r := by
  refine ⟨?_, h⟩
  unfold Takes wholeWord at h
  split at h
  · split at h
    · exact (congrArg Prod.fst (Option.some.inj h)).symm
    · cases h
  · cases h

theorem keyword_hasParts (rule : Rule) (word : String) :
    (keyword rule word).HasParts fun _ => [.word word] where
  ne_nil _ := List.cons_ne_nil _ _
  inTurn := by
    rintro t r _ ⟨_, ⟨htakes, -⟩, -⟩
    exact word_of_takes htakes

theorem punctuation_hasParts (c : Char) : (punctuation c).HasParts fun _ => [.mark c] where
  ne_nil _ := List.cons_ne_nil _ _
  inTurn h := h

theorem gap_hasParts : gap.HasParts fun _ => [.comments] where
  ne_nil _ := List.cons_ne_nil _ _
  inTurn := by
    rintro t r _ ⟨_, hseries, -⟩
    change Series _ t r _ at hseries
    induction hseries with
    | nil => exact .nil
    | cons blank h _ ih => exact .cons blank (h.2.imp And.left fun h => h.2.1) ih

theorem opening_hasParts (rule : Rule) (word : String) :
    (opening rule word).HasParts fun _ => [.word word, .comments] :=
  (keyword_hasParts rule word).seqLeft gap_hasParts

theorem closing_hasParts : closing.HasParts fun _ => [.comments, .mark ';'] :=
  gap_hasParts.seqRight (punctuation_hasParts ';')

theorem throughQuote_eq_append {quote : Char} {s t r : List Char}
    (h : throughQuote quote s = some (t, r)) : ∃ text, t = text ++ [quote] := by
  fun_induction throughQuote quote s generalizing t with
  | case1 => cases h
  | case2 c s ih =>
    obtain ⟨⟨t', r'⟩, ht, hr⟩ := Option.map_eq_some_iff.1 h
    cases hr
    obtain ⟨text, rfl⟩ := ih ht
    exact ⟨'\\' :: c :: text, rfl⟩
  | case3 =>
    cases h
    exact ⟨[], rfl⟩
  | case4 => cases h
  | case5 c s _ _ _ ih =>
    obtain ⟨⟨t', r'⟩, ht, hr⟩ := Option.map_eq_some_iff.1 h
    cases hr
    obtain ⟨text, rfl⟩ := ih ht
    exact ⟨c :: text, rfl⟩

theorem quotedText_eq_append {s t r : List Char} (h : quotedText s = some (t, r)) :
    ∃ quote text, (quote = '"' ∨ quote = '\'') ∧ t = quote :: (text ++ [quote]) := by
  unfold quotedText at h
  split at h
  · obtain ⟨⟨t', r'⟩, ht, hr⟩ := Option.map_eq_some_iff.1 h
    cases hr
    obtain ⟨text, rfl⟩ := throughQuote_eq_append ht
    exact ⟨'"', text, .inl rfl, rfl⟩
  · obtain ⟨⟨t', r'⟩, ht, hr⟩ := Option.map_eq_some_iff.1 h
    cases hr
    obtain ⟨text, rfl⟩ := throughQuote_eq_append ht
    exact ⟨'\'', text, .inr rfl, rfl⟩
  · cases h

theorem literal_hasParts : literal.HasParts fun text => [.quoted text] where
  ne_nil _ := List.cons_ne_nil _ _
  inTurn := by
    rintro t r _ ⟨_, ⟨htakes, rfl⟩, rfl⟩
    obtain ⟨quote, text, hquote, rfl⟩ := quotedText_eq_append htakes
    exact ⟨⟨quote, hquote, by simp [unquote]⟩, htakes⟩

theorem literal_hasText : literal.HasParts fun _ => [Takes quotedText] where
  ne_nil _ := List.cons_ne_nil _ _
  inTurn h := (literal_hasParts.inTurn h).2

theorem comment_hasParts : comment.HasParts fun text => [.comment text] where
  ne_nil _ := List.cons_ne_nil _ _
  inTurn := by
    rintro t r text (h | ⟨hdoc, h | ⟨-, h⟩⟩)
    · exact h.verbatim.imp_right .inl
    · exact h.verbatim.imp_right fun h => .inr ⟨Option.map_eq_none_iff.1 hdoc, .inl h⟩
    · exact h.verbatim.imp_right fun h => .inr ⟨Option.map_eq_none_iff.1 hdoc, .inr h⟩

theorem constant_hasParts : constant.HasParts fun value => [.constant value] where
  ne_nil _ := List.cons_ne_nil _ _
  inTurn := by
    rintro t r value (h | ⟨-, h | ⟨-, h | ⟨-, h | ⟨-, h⟩⟩⟩⟩)
    · exact .inl (literal_hasParts.inTurn h)
    · exact .inr (.inl h.verbatim)
    · exact .inr (.inr (.inl h.verbatim))
    · exact .inr (.inr (.inr (.inl h.verbatim)))
    · exact .inr (.inr (.inr (.inr h.verbatim)))

theorem modifier_hasParts : (Phrase.optional importModifier).HasParts fun _ => [.modifier] where
  ne_nil _ := List.cons_ne_nil _ _
  inTurn := by
    rintro t r _ (⟨_, -, htakes, -⟩ | ⟨-, rfl⟩)
    · unfold Takes orElse at htakes
      split at htakes
      · next hweak =>
        cases htakes
        exact .inl (word_of_takes hweak)
      · exact .inr (.inl (word_of_takes htakes))
    · exact .inr (.inr rfl)

/-! ## Productions -/

/-- The parts of a type in parentheses. -/
def parenthesizedParts (type : String) : List Reading :=
  [.mark '(', .comments, .verbatim typeName type, .comments, .mark ')']

theorem parenthesized_hasParts (rule : Rule) :
    (parenthesized rule).HasParts parenthesizedParts := by
  have hopen : (punctuation '(' *> gap).HasParts fun _ => [.mark '(', .comments] :=
    (punctuation_hasParts '(').seqRight gap_hasParts
  have htype : (Phrase.named rule (Phrase.lexeme .typeName typeName)).HasParts
      fun text => [.verbatim typeName text] :=
    .named (.lexeme .typeName typeName)
  exact ((hopen.seqRight htype).seqLeft gap_hasParts).seqLeft (punctuation_hasParts ')')

/-- The parts of a version statement. -/
def versionParts (word : String) : List Reading :=
  [.word word, .mark '=', Takes quotedText, .mark ';']

theorem syntaxDeclaration_hasParts : syntaxDeclaration.HasParts fun _ => versionParts "syntax" := by
  have hhead : (keyword .syntaxWord "syntax" *> punctuation '=').HasParts
      fun _ => [.word "syntax", .mark '='] :=
    (keyword_hasParts .syntaxWord "syntax").seqRight (punctuation_hasParts '=')
  exact .named ((hhead.seqRight literal_hasText).seqRight (punctuation_hasParts ';'))

theorem editionDeclaration_hasParts :
    editionDeclaration.HasParts fun _ => versionParts "edition" := by
  have hhead : (keyword .editionWord "edition" *> punctuation '=').HasParts
      fun _ => [.word "edition", .mark '='] :=
    (keyword_hasParts .editionWord "edition").seqRight (punctuation_hasParts '=')
  exact .named ((hhead.seqRight literal_hasText).seqRight (punctuation_hasParts ';'))

/-- The parts of an import. -/
def importParts (path : String) : List Reading :=
  [.word "import", .comments, .modifier, .comments, .quoted path, .comments, .mark ';']

theorem importDeclaration_hasParts : importDeclaration.HasParts importParts := by
  have hhead : (opening .importWord "import" *> Phrase.optional importModifier *> gap).HasParts
      fun _ => [.word "import", .comments, .modifier, .comments] :=
    ((opening_hasParts .importWord "import").seqRight modifier_hasParts).seqRight gap_hasParts
  exact .named ((hhead.seqRight literal_hasParts).seqLeft closing_hasParts)

/-- The parts of a package statement. -/
def packageParts (package : String) : List Reading :=
  [.word "package", .comments, .verbatim dottedName package, .comments, .mark ';']

theorem packageDeclaration_hasParts : packageDeclaration.HasParts packageParts := by
  have hname : dottedNameToken.HasParts fun package => [.verbatim dottedName package] :=
    .lexeme .dottedName dottedName
  exact .named (((opening_hasParts .packageWord "package").seqRight hname).seqLeft
    closing_hasParts)

/-- The parts of an option up to its constant. -/
def optionHead (name : String) : List Reading :=
  [.word "option", .comments, .verbatim optionName name, .comments, .mark '=', .comments]

/-- The parts of an option. -/
def optionParts (option : String × String) : List Reading :=
  optionHead option.1 ++ [.constant option.2, .comments, .mark ';']

theorem optionDeclaration_hasParts : optionDeclaration.HasParts optionParts := by
  have hname : (Phrase.lexeme .optionName optionName).HasParts
      fun name => [.verbatim optionName name] :=
    .lexeme .optionName optionName
  have hhead := ((opening_hasParts .optionWord "option").seqRight hname).seqLeft gap_hasParts
  have hequals := (punctuation_hasParts '=').seqRight gap_hasParts
  have hvalue := (hequals.seqRight constant_hasParts).seqLeft closing_hasParts
  exact .named (hhead.seq hvalue (fun _ _ => rfl) fun _ => List.cons_ne_nil _ _)

/-- The parts up to the block of a declaration with a name. -/
def headingParts (word name : String) : List Reading :=
  [.word word, .comments, .verbatim Grammar.name name, .comments]

theorem nameToken_hasParts : nameToken.HasParts fun text => [.verbatim name text] :=
  .lexeme .name name

theorem heading_hasParts (rule : Rule) (word : String) :
    (opening rule word *> nameToken <* gap).HasParts (headingParts word) :=
  ((opening_hasParts rule word).seqRight nameToken_hasParts).seqLeft gap_hasParts

/-- The parts of a message. -/
def messageParts (name : String) : List Reading := headingParts "message" name ++ [Takes body]

theorem messageDeclaration_hasParts : messageDeclaration.HasParts messageParts :=
  .named ((heading_hasParts .messageWord "message").seqLeft (.lexeme_text .body body))

/-- The parts of a call after its name. -/
def callParts (types : String × String) : List Reading :=
  parenthesizedParts types.1 ++ [.comments, .word "returns", .comments] ++
    parenthesizedParts types.2 ++ [.comments, .ending]

/-- The parts of a call. -/
def rpcParts (signature : RpcSignature) : List Reading :=
  headingParts "rpc" signature.name ++ callParts (signature.requestType, signature.responseType)

theorem ending_hasParts :
    (punctuation ';' <|> (fun _ => ()) <$> block).HasParts fun _ => [.ending] where
  ne_nil _ := List.cons_ne_nil _ _
  inTurn := by
    rintro t r _ (h | ⟨-, text, h, -⟩)
    · exact .inl h
    · exact .inr h.1

theorem rpcDeclaration_hasParts : rpcDeclaration.HasParts rpcParts := by
  have hname : (Phrase.named .methodName nameToken).HasParts fun text => [.verbatim name text] :=
    .named nameToken_hasParts
  have hhead := ((opening_hasParts .rpcWord "rpc").seqRight hname).seqLeft gap_hasParts
  have hrequest := (parenthesized_hasParts .requestType).seqLeft gap_hasParts
  have hresponse := (((opening_hasParts .returnsWord "returns").seqRight
    (parenthesized_hasParts .responseType)).seqLeft gap_hasParts).seqLeft ending_hasParts
  have htypes : (Phrase.seq Prod.mk _ _).HasParts callParts :=
    hrequest.seq hresponse (fun _ _ => rfl) fun _ => List.cons_ne_nil _ _
  exact .named (hhead.seq htypes (fun _ _ => rfl) fun _ => List.cons_ne_nil _ _)

/-! ## Lists of texts -/

/-- The text is cut into the texts of a list, none of them empty, with separators around them. -/
inductive Decomposes {α : Type} (readFrom : α → Reading) : List α → Reading where
  | nil {g r : List Char} (h : IsSeparator g) : Decomposes readFrom [] g r
  | cons {g t u r : List Char} {a : α} {as : List α} (h : IsSeparator g) (hne : t ≠ [])
    (ha : readFrom a t (u ++ r)) (rest : Decomposes readFrom as u r) :
    Decomposes readFrom (a :: as) (g ++ (t ++ u)) r

/-- An entry of a list: a text that stands for a value, or an empty statement. -/
inductive Entry {α : Type} (readFrom : α → Reading) : Option α → Reading where
  | value {a : α} {t r : List Char} (hne : t ≠ []) (h : readFrom a t r) :
    Entry readFrom (some a) t r
  | empty {r : List Char} : Entry readFrom none [';'] r

section Decomposes

variable {α : Type} {readFrom : α → Reading} {as : List α} {g t r : List Char}

theorem IsSeparator.append {g g' : List Char} (h : IsSeparator g) (h' : IsSeparator g') :
    IsSeparator (g ++ g') :=
  fun c hc => (List.mem_append.1 hc).elim (h c) (h' c)

theorem isSeparator_of_blank (h : ∀ c ∈ g, isBlank c) : IsSeparator g := fun c hc => .inl (h c hc)

theorem Decomposes.separator_append (hg : IsSeparator g) (h : Decomposes readFrom as t r) :
    Decomposes readFrom as (g ++ t) r := by
  cases h with
  | nil h => exact .nil (hg.append h)
  | cons h hne ha rest =>
    rw [← List.append_assoc]
    exact .cons (hg.append h) hne ha rest

theorem decomposes_of_series {spells : List Char → List Char → Option α → Prop}
    (hentry : ∀ {t r a}, spells t r a → Entry readFrom a t r) {as : List (Option α)}
    (h : Series spells t (g ++ r) as) (hg : IsSeparator g) :
    Decomposes readFrom (as.filterMap id) (t ++ g) r := by
  generalize hrest : g ++ r = rest at h
  induction h with
  | nil => exact .nil hg
  | @cons w t u _ a as blank h _ ih =>
    subst hrest
    have hrest := ih rfl
    have hw := isSeparator_of_blank blank
    rw [show (w ++ (t ++ u)) ++ g = w ++ (t ++ (u ++ g)) by simp]
    rw [show u ++ (g ++ r) = (u ++ g) ++ r by simp] at h
    cases hentry h with
    | value hne h => exact .cons hw hne h hrest
    | empty =>
      -- No value stands for a semicolon: it goes to the separator in front of the next text.
      have hsemicolon : IsSeparator [';'] := fun c hc => .inr (List.mem_singleton.1 hc)
      exact (hrest.separator_append hsemicolon).separator_append hw

/-- Where a member of the list stands. -/
theorem Decomposes.exists_of_mem (h : Decomposes readFrom as t r) {a : α} (ha : a ∈ as) :
    ∃ front text back, t = front ++ (text ++ back) ∧ readFrom a text (back ++ r) := by
  induction h with
  | nil => cases ha
  | @cons g t u _ b as _ _ hb _ ih =>
    obtain rfl | ha := List.mem_cons.1 ha
    · exact ⟨g, t, u, rfl, hb⟩
    · obtain ⟨front, text, back, rfl, hread⟩ := ih ha
      exact ⟨g ++ (t ++ front), text, back, by simp, hread⟩

end Decomposes

end Grammar

open Grammar

/-- The texts of a service item. What is not modelled is an option or opaque. -/
inductive ServiceItem.ReadFrom : ServiceItem → Reading where
  | comment {text : String} {t r : List Char}
    (h : Production Grammar.comment text [.comment text] t r) : ReadFrom (.comment text) t r
  | rpc {signature : RpcSignature} {t r : List Char}
    (h : Production rpcDeclaration signature (rpcParts signature) t r) :
    ReadFrom (.rpc signature) t r
  | option {option : String × String} {t r : List Char}
    (h : Production optionDeclaration option (optionParts option) t r) : ReadFrom .other t r
  | opaqueText {t r : List Char} (h : Takes opaqueDeclaration t r) : ReadFrom .other t r

/-- The texts of a declaration. What is not modelled is a version statement or opaque. A service
block is cut into the texts of its items. -/
inductive Declaration.ReadFrom : Declaration → Reading where
  | importing {path : String} {t r : List Char}
    (h : Production importDeclaration path (importParts path) t r) : ReadFrom (.importing path) t r
  | package {name : String} {t r : List Char}
    (h : Production packageDeclaration name (packageParts name) t r) : ReadFrom (.package name) t r
  | option {name value : String} {t r : List Char}
    (h : Production optionDeclaration (name, value) (optionParts (name, value)) t r) :
    ReadFrom (.option name value) t r
  | comment {text : String} {t r : List Char}
    (h : Production Grammar.comment text [.comment text] t r) : ReadFrom (.comment text) t r
  | message {name : String} {t r : List Char}
    (h : Production messageDeclaration name (messageParts name) t r) : ReadFrom (.message name) t r
  | service {name : String} {items : List ServiceItem} {head inner r : List Char}
    (hparse : serviceDeclaration.parse (head ++ (inner ++ '}' :: r)) = some ((name, items), r))
    (hhead : InTurn (headingParts "service" name ++ [.mark '{']) head (inner ++ '}' :: r))
    (hitems : Decomposes ServiceItem.ReadFrom items inner ('}' :: r)) :
    ReadFrom (.service name items) (head ++ (inner ++ ['}'])) r
  | syntaxVersion {t r : List Char}
    (h : Production syntaxDeclaration () (versionParts "syntax") t r) : ReadFrom .other t r
  | edition {t r : List Char}
    (h : Production editionDeclaration () (versionParts "edition") t r) : ReadFrom .other t r
  | opaqueText {t r : List Char} (h : Takes opaqueDeclaration t r) : ReadFrom .other t r

namespace Grammar

/-! ## What is parsed -/

theorem Production.ne_nil {α : Type} {phrase : Phrase α} {a : α} {w : String}
    {parts : List Reading} {t r : List Char} (h : Production phrase a (.word w :: parts) t r)
    (hw : w.toList ≠ []) : t ≠ [] :=
  h.inTurn.ne_nil_of_word hw

theorem comment_ne_nil {text : String} {t r : List Char} (h : Reading.comment text t r) :
    t ≠ [] := by
  obtain ⟨-, h | ⟨-, h | h⟩⟩ := h
  · exact h.ne_nil docComment_splits
  · exact h.ne_nil blockComment_splits
  · exact h.ne_nil lineComment_splits

theorem opaqueToken_takes {t r : List Char} {text : String}
    (h : opaqueToken.parse (t ++ r) = some (text, r)) : Takes opaqueDeclaration t r :=
  ((Phrase.HasParts.lexeme_text .opaqueDeclaration opaqueDeclaration).production
    opaqueToken_splits h).inTurn

theorem semicolon_of_parse {t r : List Char} (h : (punctuation ';').parse (t ++ r) = some ((), r)) :
    t = [';'] :=
  ((punctuation_hasParts ';').production trivial h).inTurn

theorem serviceItem_entry {t r : List Char} {a : Option ServiceItem}
    (h : serviceItem.parse (t ++ r) = some (a, r)) : Entry ServiceItem.ReadFrom a t r := by
  obtain ⟨text, hparse, rfl⟩ | h := Phrase.of_map_orElse h
  · have h := comment_hasParts.production comment_splits hparse
    exact .value (comment_ne_nil h.inTurn) (.comment h)
  obtain ⟨signature, hparse, rfl⟩ | h := Phrase.of_map_orElse h
  · have h := rpcDeclaration_hasParts.production rpcDeclaration_splits hparse
    exact .value (h.ne_nil (by decide)) (.rpc h)
  obtain ⟨option, hparse, rfl⟩ | h := Phrase.of_map_orElse h
  · have h := optionDeclaration_hasParts.production optionDeclaration_splits hparse
    exact .value (h.ne_nil (by decide)) (.option h)
  obtain ⟨_, hparse, rfl⟩ | h := Phrase.of_map_orElse h
  · obtain rfl := semicolon_of_parse hparse
    exact .empty
  obtain ⟨text, hparse, rfl⟩ := Phrase.of_map h
  have h := opaqueToken_takes hparse
  exact .value (h.ne_nil opaqueDeclaration_splits) (.opaqueText h)

theorem serviceDeclaration_readFrom {name : String} {items : List ServiceItem} {t r : List Char}
    (h : serviceDeclaration.parse (t ++ r) = some ((name, items), r)) :
    (Declaration.service name items).ReadFrom t r ∧ t ≠ [] := by
  obtain ⟨t', happend, hspells⟩ := Phrase.exists_spells _ serviceDeclaration_splits h
  obtain rfl := List.append_cancel_right happend
  obtain ⟨head, w, _, _, entries, rfl, hw, hhead, hblock, hvalue⟩ := hspells
  obtain ⟨u, w', _, _, _, rfl, hw', hseries, rfl, rfl⟩ := hblock
  cases hvalue
  have hparts : (opening .serviceWord "service" *> nameToken <* gap <* punctuation '{').HasParts
      fun name => headingParts "service" name ++ [.mark '{'] :=
    (heading_hasParts .serviceWord "service").seqLeft (punctuation_hasParts '{')
  have hinTurn := hparts.inTurn hhead
  have hitems : Decomposes ServiceItem.ReadFrom (entries.filterMap id) (u ++ w') ('}' :: r) :=
    decomposes_of_series (fun h => serviceItem_entry h.1) hseries (isSeparator_of_blank hw')
  -- White space next to the braces belongs to the separators around the items.
  have hinner := hitems.separator_append (isSeparator_of_blank hw)
  have htext : head ++ (w ++ (u ++ (w' ++ ['}']))) = head ++ ((w ++ (u ++ w')) ++ ['}']) := by simp
  rw [htext] at h ⊢
  refine ⟨.service (by simpa using h) (by simpa using hinTurn) hinner, ?_⟩
  exact List.append_ne_nil_of_left_ne_nil (hinTurn.ne_nil_of_word (by decide)) _

theorem declaration_entry {t r : List Char} {a : Option Declaration}
    (h : declaration.parse (t ++ r) = some (a, r)) : Entry Declaration.ReadFrom a t r := by
  obtain ⟨text, hparse, rfl⟩ | h := Phrase.of_map_orElse h
  · have h := comment_hasParts.production comment_splits hparse
    exact .value (comment_ne_nil h.inTurn) (.comment h)
  obtain ⟨_, hparse, rfl⟩ | h := Phrase.of_map_orElse h
  · have h := syntaxDeclaration_hasParts.production syntaxDeclaration_splits hparse
    exact .value (h.ne_nil (by decide)) (.syntaxVersion h)
  obtain ⟨_, hparse, rfl⟩ | h := Phrase.of_map_orElse h
  · have h := editionDeclaration_hasParts.production editionDeclaration_splits hparse
    exact .value (h.ne_nil (by decide)) (.edition h)
  obtain ⟨path, hparse, rfl⟩ | h := Phrase.of_map_orElse h
  · have h := importDeclaration_hasParts.production importDeclaration_splits hparse
    exact .value (h.ne_nil (by decide)) (.importing h)
  obtain ⟨package, hparse, rfl⟩ | h := Phrase.of_map_orElse h
  · have h := packageDeclaration_hasParts.production packageDeclaration_splits hparse
    exact .value (h.ne_nil (by decide)) (.package h)
  obtain ⟨option, hparse, rfl⟩ | h := Phrase.of_map_orElse h
  · have h := optionDeclaration_hasParts.production optionDeclaration_splits hparse
    exact .value (h.ne_nil (by decide)) (.option h)
  obtain ⟨name, hparse, rfl⟩ | h := Phrase.of_map_orElse h
  · have h := messageDeclaration_hasParts.production messageDeclaration_splits hparse
    exact .value (h.ne_nil (by decide)) (.message h)
  obtain ⟨service, hparse, rfl⟩ | h := Phrase.of_map_orElse h
  · obtain ⟨h, hne⟩ := serviceDeclaration_readFrom hparse
    exact .value hne h
  obtain ⟨_, hparse, rfl⟩ | h := Phrase.of_map_orElse h
  · obtain rfl := semicolon_of_parse hparse
    exact .empty
  obtain ⟨text, hparse, rfl⟩ := Phrase.of_map h
  have h := opaqueToken_takes hparse
  exact .value (h.ne_nil opaqueDeclaration_splits) (.opaqueText h)

theorem file_decomposes {source r : List Char} {ds : List Declaration}
    (h : file.parse source = some (ds, r)) : Decomposes Declaration.ReadFrom ds source [] := by
  obtain ⟨t, rfl, hspells⟩ := Phrase.exists_spells _ file_splits h
  obtain ⟨u, w, _, _, _, rfl, hw, ⟨entries, hseries, rfl⟩, ⟨rfl, rfl⟩, rfl⟩ := hspells
  have hall : Decomposes Declaration.ReadFrom (entries.filterMap id) (u ++ w) [] :=
    decomposes_of_series (fun h => declaration_entry h.1) hseries (isSeparator_of_blank hw)
  simpa using hall

theorem exists_file_parse {source : String} {ds : List Declaration}
    (h : parseDeclarations source = .ok ds) : ∃ r, file.parse source.toList = some (ds, r) := by
  unfold parseDeclarations at h
  split at h
  · next hparse =>
    cases h
    exact ⟨_, hparse⟩
  · cases h

end Grammar

/-- Parsing loses no text and repeats none: the text is the texts of its declarations, each a whole
match of the rule for its kind with the texts that the declaration holds as parts, and white space
and semicolons. The text in the braces of a service is cut in the same way. -/
theorem parseDeclarations_decomposes {source : String} {ds : List Declaration}
    (h : parseDeclarations source = .ok ds) :
    Decomposes Declaration.ReadFrom ds source.toList [] := by
  obtain ⟨r, hparse⟩ := exists_file_parse h
  exact file_decomposes hparse

/-- Two declarations, a service among them, and an empty statement. -/
theorem decomposes_pinging :
    Decomposes Declaration.ReadFrom
      [.package "p", .service "S" [.rpc ⟨"M", "A", ".b.C"⟩, .comment "// c"]]
      "package p;; service S \x7b rpc M(A) returns(.b.C); // c\n\x7d".toList [] :=
  parseDeclarations_decomposes (by cbv)

end RpcCatalog
