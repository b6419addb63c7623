import RpcCatalog.Grammar.Declarations
import RpcCatalog.Proofs.Grammar.Reads
import RpcCatalog.Proofs.Grammar.Tokens

/-!
# What phrases spell

The texts that phrases stand for, told without a parser: each part of a phrase has a text of its
own, and the text of the whole is made of these, in order, with white space alone between them.

* `Phrase.Spells`: a phrase spells a text where another follows, and stands for a value.
* `Phrase.exists_spells`: what is parsed is spelled by the part of the text that is read.
* `file_splits`: this is so for all phrases of the grammar.
-/

set_option autoImplicit false

namespace RpcCatalog.Grammar

namespace Phrase

variable {α β γ : Type}

/-! ## Texts of phrases -/

/-- The phrase is made of scans that cut texts in two. -/
def Splits : {α : Type} → Phrase α → Prop
  | _, .lexeme _ scan => Grammar.Splits scan
  | _, .mark _ => True
  | _, .endOfInput => True
  | _, .seq _ first second => first.Splits ∧ second.Splits
  | _, .choice first second => first.Splits ∧ second.Splits
  | _, .many item => item.Splits
  | _, .optional item => item.Splits
  | _, .named _ phrase => phrase.Splits
  | _, .map _ phrase => phrase.Splits

/-- Texts of items one after another, each with white space in front. -/
inductive Series (spells : List Char → List Char → α → Prop) :
    List Char → List Char → List α → Prop where
  | nil {r : List Char} : Series spells [] r []
  | cons {w t u r : List Char} {a : α} {as : List α} (blank : ∀ c ∈ w, isBlank c)
    (h : spells t (u ++ r) a) (rest : Series spells u r as) :
    Series spells (w ++ (t ++ u)) r (a :: as)

/-- The phrase spells a text where another text follows, and stands for a value. Of the second of
two alternatives this means that the first does not match, of repeated items that each is what is
parsed where it stands. -/
def Spells : {α : Type} → Phrase α → List Char → List Char → α → Prop
  | _, .lexeme _ scan, t, r, a => Takes scan t r ∧ a = String.ofList t
  | _, .mark text, t, _, _ => t = text
  | _, .endOfInput, t, r, _ => t = [] ∧ r = []
  | _, .seq combine first second, t, r, a =>
    ∃ t₁ w t₂ b c, t = t₁ ++ (w ++ t₂) ∧ (∀ d ∈ w, isBlank d) ∧
      first.Spells t₁ (w ++ (t₂ ++ r)) b ∧ second.Spells t₂ r c ∧ a = combine b c
  | _, .choice first second, t, r, a =>
    first.Spells t r a ∨ first.Rejects (t ++ r) ∧ second.Spells t r a
  | _, .many item, t, r, as =>
    Series (fun t r a => item.parse (t ++ r) = some (a, r) ∧ item.Spells t r a) t r as
  | _, .optional item, t, r, a => (∃ b, a = some b ∧ item.Spells t r b) ∨ a = none ∧ t = []
  | _, .named _ phrase, t, r, a => phrase.Spells t r a
  | _, .map f phrase, t, r, a => ∃ b, phrase.Spells t r b ∧ a = f b

theorem exists_blanks (s : List Char) : ∃ w, s = w ++ skipBlanks s ∧ ∀ c ∈ w, isBlank c :=
  ⟨s.takeWhile isBlank, List.takeWhile_append_dropWhile.symm,
    List.all_eq_true.1 List.all_takeWhile⟩

theorem exists_series {step : List Char → Option (α × List Char)}
    {spells : List Char → List Char → α → Prop}
    (hstep : ∀ {s r a}, step s = some (a, r) → ∃ t, s = t ++ r ∧ spells t r a) (s : List Char) :
    ∃ t, s = t ++ (collect step s).2 ∧ Series spells t (collect step s).2 (collect step s).1 := by
  fun_induction collect step s with
  | case1 => exact ⟨[], rfl, .nil⟩
  | case2 s a r hparse hshorter as r' hcollect ih =>
    obtain ⟨w, hw, hblank⟩ := exists_blanks s
    obtain ⟨t, ht, hspells⟩ := hstep hparse
    rw [hcollect] at ih
    obtain ⟨u, rfl, hseries⟩ := ih
    exact ⟨w ++ (t ++ u), by simpa [ht] using hw, .cons hblank hspells hseries⟩
  | case3 => exact ⟨[], rfl, .nil⟩

/-- What is parsed is spelled by the part of the text that is read. -/
theorem exists_spells (phrase : Phrase α) (hsplits : phrase.Splits) {s r : List Char} {a : α}
    (h : phrase.parse s = some (a, r)) : ∃ t, s = t ++ r ∧ phrase.Spells t r a := by
  induction phrase generalizing s r with
  | lexeme rule scan =>
    obtain ⟨⟨t, r'⟩, hscan, heq⟩ := Option.map_eq_some_iff.1 h
    cases heq
    obtain ⟨hs, htakes⟩ := Grammar.Splits.takes hsplits hscan
    exact ⟨t, hs, htakes, rfl⟩
  | mark text =>
    obtain ⟨r', hafter, heq⟩ := Option.map_eq_some_iff.1 h
    cases heq
    exact ⟨text, Text.afterPrefix_eq_some_iff.1 hafter, rfl⟩
  | endOfInput =>
    rw [parse] at h
    split at h
    · next hempty =>
      cases h
      exact ⟨[], List.isEmpty_iff.1 hempty, rfl, rfl⟩
    · cases h
  | seq combine first second ihfirst ihsecond =>
    rw [parse] at h
    split at h
    · cases h
    · next b r₁ hfirst =>
      split at h
      · cases h
      · next c r₂ hsecond =>
        cases h
        obtain ⟨t₁, rfl, hspells₁⟩ := ihfirst hsplits.1 hfirst
        obtain ⟨t₂, ht₂, hspells₂⟩ := ihsecond hsplits.2 hsecond
        obtain ⟨w, hw, hblank⟩ := exists_blanks r₁
        rw [ht₂] at hw
        subst hw
        exact ⟨t₁ ++ (w ++ t₂), by simp, t₁, w, t₂, b, c, rfl, hblank, hspells₁, hspells₂, rfl⟩
  | choice first second ihfirst ihsecond =>
    rw [parse] at h
    split at h
    · next hfirst =>
      cases h
      obtain ⟨t, hs, hspells⟩ := ihfirst hsplits.1 hfirst
      exact ⟨t, hs, .inl hspells⟩
    · next hfirst =>
      obtain ⟨t, rfl, hspells⟩ := ihsecond hsplits.2 h
      exact ⟨t, rfl, .inr ⟨hfirst, hspells⟩⟩
  | many item ih =>
    have hstep : ∀ {s r a}, item.parse s = some (a, r) →
        ∃ t, s = t ++ r ∧ item.parse (t ++ r) = some (a, r) ∧ item.Spells t r a := by
      intro s r a hparse
      obtain ⟨t, rfl, hspells⟩ := ih hsplits hparse
      exact ⟨t, rfl, hparse, hspells⟩
    have hseries := exists_series hstep s
    rwa [Option.some.inj h] at hseries
  | optional item ih =>
    rw [parse] at h
    split at h
    · next b r' hitem =>
      cases h
      obtain ⟨t, hs, hspells⟩ := ih hsplits hitem
      exact ⟨t, hs, .inl ⟨b, rfl, hspells⟩⟩
    · cases h
      exact ⟨[], rfl, .inr ⟨rfl, rfl⟩⟩
  | named rule phrase ih => exact ih hsplits h
  | map f phrase ih =>
    obtain ⟨⟨b, r'⟩, hparse, heq⟩ := Option.map_eq_some_iff.1 h
    cases heq
    obtain ⟨t, hs, hspells⟩ := ih hsplits hparse
    exact ⟨t, hs, b, hspells, rfl⟩

end Phrase

/-! ## The grammar -/

open Phrase (lexeme named optional)

theorem gap_splits : gap.Splits := And.intro lineComment_splits blockComment_splits

theorem keyword_splits {rule : Rule} {word : String} (h : word.toList ≠ []) :
    (keyword rule word).Splits :=
  wholeWord_splits h

theorem opening_splits {rule : Rule} {word : String} (h : word.toList ≠ []) :
    (opening rule word).Splits :=
  And.intro (keyword_splits h) gap_splits

theorem closing_splits : closing.Splits := And.intro gap_splits trivial

theorem comment_splits : comment.Splits :=
  And.intro docComment_splits (And.intro blockComment_splits lineComment_splits)

theorem constant_splits : constant.Splits :=
  And.intro quotedText_splits <| And.intro body_splits <|
    And.intro (signed_splits unsignedNumber_splits) <| And.intro (signed_splits name_splits)
      dottedName_splits

/-- The head of a declaration that a keyword and a name begin. -/
theorem heading_splits {rule : Rule} {word : String} (h : word.toList ≠ []) :
    (opening rule word *> nameToken <* gap).Splits :=
  And.intro (And.intro (opening_splits h) name_splits) gap_splits

theorem parenthesized_splits (rule : Rule) : (parenthesized rule).Splits :=
  And.intro
    (And.intro (And.intro (And.intro trivial gap_splits) typeName_splits) gap_splits) trivial

theorem syntaxDeclaration_splits : syntaxDeclaration.Splits :=
  And.intro (And.intro (And.intro (keyword_splits (by decide)) trivial) quotedText_splits) trivial

theorem editionDeclaration_splits : editionDeclaration.Splits :=
  And.intro (And.intro (And.intro (keyword_splits (by decide)) trivial) quotedText_splits) trivial

theorem importDeclaration_splits : importDeclaration.Splits := by
  have hmodifier : importModifier.Splits :=
    orElse_splits (wholeWord_splits (by decide)) (wholeWord_splits (by decide))
  exact And.intro (And.intro (And.intro (And.intro (opening_splits (by decide)) hmodifier)
    gap_splits) quotedText_splits) closing_splits

theorem packageDeclaration_splits : packageDeclaration.Splits :=
  And.intro (And.intro (opening_splits (by decide)) dottedName_splits) closing_splits

theorem optionDeclaration_splits : optionDeclaration.Splits := by
  have hhead : (opening .optionWord "option" *> lexeme .optionName optionName <* gap).Splits :=
    And.intro (And.intro (opening_splits (by decide)) optionName_splits) gap_splits
  exact And.intro hhead (And.intro (And.intro (And.intro trivial gap_splits) constant_splits)
    closing_splits)

theorem messageDeclaration_splits : messageDeclaration.Splits :=
  And.intro (heading_splits (by decide)) body_splits

theorem rpcDeclaration_splits : rpcDeclaration.Splits := by
  have hhead : (opening .rpcWord "rpc" *> named .methodName nameToken <* gap).Splits :=
    And.intro (And.intro (opening_splits (by decide)) name_splits) gap_splits
  have hresponse :
      (opening .returnsWord "returns" *> parenthesized .responseType <* gap).Splits :=
    And.intro (And.intro (opening_splits (by decide)) (parenthesized_splits _)) gap_splits
  exact And.intro hhead (And.intro (And.intro (parenthesized_splits _) gap_splits)
    (And.intro hresponse (And.intro trivial body_splits)))

theorem opaqueToken_splits : opaqueToken.Splits := opaqueDeclaration_splits

theorem serviceItem_splits : serviceItem.Splits :=
  And.intro comment_splits <| And.intro rpcDeclaration_splits <|
    And.intro optionDeclaration_splits <| And.intro trivial opaqueToken_splits

theorem serviceDeclaration_splits : serviceDeclaration.Splits :=
  And.intro (And.intro (heading_splits (by decide)) trivial) (And.intro serviceItem_splits trivial)

theorem declaration_splits : declaration.Splits :=
  And.intro comment_splits <| And.intro syntaxDeclaration_splits <|
    And.intro editionDeclaration_splits <| And.intro importDeclaration_splits <|
    And.intro packageDeclaration_splits <| And.intro optionDeclaration_splits <|
    And.intro messageDeclaration_splits <| And.intro serviceDeclaration_splits <|
    And.intro trivial opaqueToken_splits

/-- Every scan of the grammar cuts texts in two. -/
theorem file_splits : file.Splits := And.intro declaration_splits trivial

end RpcCatalog.Grammar
