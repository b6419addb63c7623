import RpcCatalog.Grammar.Phrase

/-!
# Reading phrases

What a phrase does at the front of a text, composed part by part.

* `Phrase.Reads`: the phrase matches and leaves a rest, told without the white space in front of it.
* `Phrase.Rejects`: the phrase does not match.
* `Phrase.ReadsMany`: items are read one after another as long as they match;
  `Phrase.many` does so (`ReadsMany.reads`).
-/

set_option autoImplicit false

namespace RpcCatalog.Grammar

/-! ## White space -/

theorem skipBlanks_cons_of_isBlank {c : Char} (h : isBlank c) (s : List Char) :
    skipBlanks (c :: s) = skipBlanks s :=
  List.dropWhile_cons_of_pos h

theorem skipBlanks_cons_of_not_isBlank {c : Char} (h : isBlank c = false) (s : List Char) :
    skipBlanks (c :: s) = c :: s :=
  List.dropWhile_cons_of_neg (by simp [h])

theorem skipBlanks_suffix (s : List Char) : skipBlanks s <:+ s := List.dropWhile_suffix _

@[simp] theorem skipBlanks_skipBlanks (s : List Char) :
    skipBlanks (skipBlanks s) = skipBlanks s := by
  induction s with
  | nil => rfl
  | cons c s ih =>
    cases hc : isBlank c with
    | true => rw [skipBlanks_cons_of_isBlank hc, ih]
    | false => rw [skipBlanks_cons_of_not_isBlank hc, skipBlanks_cons_of_not_isBlank hc]

namespace Phrase

variable {α β γ : Type}

/-! ## Single phrases -/

/-- The phrase has a value at the front of a text, and leaves a text, up to white space in front of
it. -/
def Reads (phrase : Phrase α) (s : List Char) (a : α) (t : List Char) : Prop :=
  ∃ r, phrase.parse s = some (a, r) ∧ r <:+ s ∧ skipBlanks r = t

/-- The phrase does not match at the front of a text. -/
def Rejects (phrase : Phrase α) (s : List Char) : Prop := phrase.parse s = none

section

variable {phrase : Phrase α} {phrase' : Phrase β} {s t u : List Char} {a : α} {b : β}

attribute [local simp] parse

theorem Reads.lexeme {rule : Rule} {scan : Scan} {token r : List Char}
    (h : scan (token ++ r) = some (token, r)) :
    (lexeme rule scan).Reads (token ++ r) (String.ofList token) (skipBlanks r) :=
  ⟨r, by simp [h], List.suffix_append _ _, rfl⟩

theorem afterPrefix_append (text r : List Char) : Text.afterPrefix text (text ++ r) = some r :=
  Text.afterPrefix_eq_some_iff.2 rfl

theorem Reads.mark (text r : List Char) :
    (mark text).Reads (text ++ r) () (skipBlanks r) :=
  ⟨r, by simp [afterPrefix_append], List.suffix_append _ _, rfl⟩

theorem Reads.endOfInput : endOfInput.Reads [] () [] := ⟨[], rfl, List.suffix_refl _, rfl⟩

theorem Reads.seq {combine : α → β → γ} (h : phrase.Reads s a t) (h' : phrase'.Reads t b u) :
    (Phrase.seq combine phrase phrase').Reads s (combine a b) u := by
  obtain ⟨r, hparse, hsuffix, rfl⟩ := h
  obtain ⟨r', hparse', hsuffix', rfl⟩ := h'
  exact ⟨r', by rw [parse, hparse]; simp only [hparse'],
    hsuffix'.trans ((skipBlanks_suffix r).trans hsuffix), rfl⟩

theorem Reads.seqRight (h : phrase.Reads s a t) (h' : phrase'.Reads t b u) :
    (phrase *> phrase').Reads s b u :=
  h.seq h'

theorem Reads.seqLeft (h : phrase.Reads s a t) (h' : phrase'.Reads t b u) :
    (phrase <* phrase').Reads s a u :=
  h.seq h'

theorem Reads.map {f : α → β} (h : phrase.Reads s a t) : (f <$> phrase).Reads s (f a) t := by
  obtain ⟨r, hparse, hsuffix, rfl⟩ := h
  have hmap : (f <$> phrase).parse s = some (f a, r) := by
    change (Phrase.map f phrase).parse s = some (f a, r)
    rw [parse, hparse]
    rfl
  exact ⟨r, hmap, hsuffix, rfl⟩

theorem Reads.named {rule : Rule} (h : phrase.Reads s a t) : (named rule phrase).Reads s a t := by
  obtain ⟨r, hparse, hsuffix, rfl⟩ := h
  exact ⟨r, by simp [hparse], hsuffix, rfl⟩

theorem Reads.orElse_left {other : Phrase α} (h : phrase.Reads s a t) :
    (phrase <|> other).Reads s a t := by
  obtain ⟨r, hparse, hsuffix, rfl⟩ := h
  have hchoice : (phrase <|> other).parse s = some (a, r) := by
    change (Phrase.choice phrase other).parse s = some (a, r)
    rw [parse, hparse]
  exact ⟨r, hchoice, hsuffix, rfl⟩

theorem Reads.orElse_right {other : Phrase α} (hreject : other.Rejects s)
    (h : phrase.Reads s a t) : (other <|> phrase).Reads s a t := by
  obtain ⟨r, hparse, hsuffix, rfl⟩ := h
  have hchoice : (other <|> phrase).parse s = some (a, r) := by
    change (Phrase.choice other phrase).parse s = some (a, r)
    rw [parse, hreject]
    exact hparse
  exact ⟨r, hchoice, hsuffix, rfl⟩

theorem Reads.optional_none (h : phrase.Rejects s) (hs : skipBlanks s = s) :
    (optional phrase).Reads s none s :=
  ⟨s, by rw [parse, h], List.suffix_refl s, hs⟩

/-! ## Rejection -/

theorem Rejects.lexeme {rule : Rule} {scan : Scan} (h : scan s = none) :
    (lexeme rule scan).Rejects s := by
  simp [Rejects, h]

theorem Rejects.mark {c d : Char} (h : c ≠ d) : (Phrase.mark [c]).Rejects (d :: s) := by
  rw [Rejects, parse, Text.afterPrefix, if_neg h]
  rfl

theorem Rejects.seq_left {combine : α → β → γ} (h : phrase.Rejects s) :
    (Phrase.seq combine phrase phrase').Rejects s := by
  rw [Rejects, parse, h]

theorem Rejects.seq_right {combine : α → β → γ} (h : phrase.Reads s a t)
    (h' : phrase'.Rejects t) : (Phrase.seq combine phrase phrase').Rejects s := by
  obtain ⟨r, hparse, -, rfl⟩ := h
  rw [Rejects, parse, hparse]
  simp only [show phrase'.parse (skipBlanks r) = none from h']

theorem Rejects.named {rule : Rule} (h : phrase.Rejects s) :
    (Phrase.named rule phrase).Rejects s := by
  rw [Rejects, parse, h]

theorem Rejects.map {f : α → β} (h : phrase.Rejects s) : (f <$> phrase).Rejects s := by
  change (Phrase.map f phrase).parse s = none
  rw [parse, h]
  rfl

theorem Rejects.orElse {other : Phrase α} (h : phrase.Rejects s) (h' : other.Rejects s) :
    (phrase <|> other).Rejects s := by
  change (Phrase.choice phrase other).parse s = none
  rw [parse, h]
  exact h'

end

/-! ## Repetition -/

/-- Items are read off the front of a text, each taking something, until one does not match. -/
inductive ReadsMany (item : Phrase α) : List Char → List α → List Char → Prop where
  | nil {s : List Char} (h : item.Rejects (skipBlanks s)) : ReadsMany item s [] (skipBlanks s)
  | cons {s t u : List Char} {a : α} {as : List α} (h : item.Reads (skipBlanks s) a t)
    (shorter : t.length < (skipBlanks s).length) (rest : ReadsMany item t as u) :
    ReadsMany item s (a :: as) u

variable {item : Phrase α} {s s' u : List Char} {as : List α}

theorem ReadsMany.of_skipBlanks (h : item.ReadsMany s as u)
    (hs : skipBlanks s' = skipBlanks s) : item.ReadsMany s' as u := by
  cases h with
  | nil h =>
    rw [← hs] at h ⊢
    exact .nil h
  | cons h shorter rest =>
    rw [← hs] at h shorter
    exact .cons h shorter rest

theorem ReadsMany.cons_append {text r : List Char} {a : α}
    (hfront : skipBlanks (text ++ r) = text ++ r) (hne : text ≠ [])
    (h : item.Reads (text ++ r) a (skipBlanks r)) (rest : item.ReadsMany r as u) :
    item.ReadsMany (text ++ r) (a :: as) u := by
  have hshorter : (skipBlanks r).length < (skipBlanks (text ++ r)).length := by
    have hle := (skipBlanks_suffix r).length_le
    have hpos := List.length_pos_iff.2 hne
    rw [hfront, List.length_append]
    omega
  rw [← hfront] at h
  exact .cons h hshorter (rest.of_skipBlanks (skipBlanks_skipBlanks r))

theorem ReadsMany.reads (h : item.ReadsMany s as u) : (many item).Reads s as u := by
  have hcollect : ∃ r, collect item.parse s = (as, r) ∧ r <:+ s ∧ skipBlanks r = u := by
    -- The text that is left may have white space in front, so the induction is on all texts that
    -- are the same up to it.
    suffices hall : ∀ s', skipBlanks s' = skipBlanks s →
        ∃ r, collect item.parse s' = (as, r) ∧ r <:+ s' ∧ skipBlanks r = u from hall s rfl
    induction h with
    | @nil s h =>
      intro s' hs
      refine ⟨s', ?_, List.suffix_refl s', hs⟩
      rw [collect, hs, show item.parse (skipBlanks s) = none from h]
    | @cons s t u a as h shorter rest ih =>
      intro s' hs
      obtain ⟨r, hparse, hsuffix, rfl⟩ := h
      obtain ⟨r', hcollect, hsuffix', hrest⟩ := ih r (skipBlanks_skipBlanks r).symm
      have hshorter : r.length < s'.length := by
        have hle : (skipBlanks s').length ≤ s'.length := (skipBlanks_suffix s').length_le
        -- A rest as long as the text would be the text, which has no white space in front.
        obtain hlt | hlong := Nat.lt_or_ge r.length s'.length
        · exact hlt
        · have hr : r = skipBlanks s := hsuffix.eq_of_length_le (by rw [← hs]; omega)
          rw [hr, skipBlanks_skipBlanks] at shorter
          omega
      refine ⟨r', ?_, ?_, hrest⟩
      · rw [collect, hs, hparse]
        simp only [if_pos hshorter, hcollect]
      · exact hsuffix'.trans (hsuffix.trans (hs ▸ skipBlanks_suffix s'))
  obtain ⟨r, hcollect, hsuffix, hrest⟩ := hcollect
  exact ⟨r, by rw [parse, hcollect], hsuffix, hrest⟩

end Phrase

end RpcCatalog.Grammar
