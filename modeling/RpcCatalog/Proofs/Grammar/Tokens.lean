import RpcCatalog.Grammar.Lexeme

/-!
# What scans take

Scans cut texts in two, and what a scan takes off the front is told by the text and what follows it.

* `Takes`: a scan takes a whole text off the front of what follows it.
* `Splits.takes`: whatever a scan finds, it takes.
-/

set_option autoImplicit false

namespace RpcCatalog.Grammar

/-! ## Texts that are taken -/

/-- The scan takes a text off the front where another text follows. -/
def Takes (scan : Scan) (t r : List Char) : Prop := scan (t ++ r) = some (t, r)

theorem Splits.takes {scan : Scan} (h : Splits scan) {s t r : List Char}
    (hs : scan s = some (t, r)) : s = t ++ r ∧ Takes scan t r := by
  obtain ⟨rfl, -⟩ := h hs
  exact ⟨rfl, hs⟩

theorem Takes.ne_nil {scan : Scan} {t r : List Char} (h : Takes scan t r) (hsplits : Splits scan) :
    t ≠ [] :=
  (hsplits h).2

/-- A text that is taken after some characters which go with it. -/
theorem Splits.of_map {scan : Scan} (h : Splits scan) (front : List Char) {s t r : List Char}
    (hs : ((scan s).map fun split => (front ++ split.1, split.2)) = some (t, r)) :
    t ++ r = front ++ s ∧ t ≠ [] := by
  obtain ⟨⟨t', r'⟩, hscan, hr⟩ := Option.map_eq_some_iff.1 hs
  cases hr
  obtain ⟨rfl, hne⟩ := h hscan
  exact ⟨List.append_assoc .., List.append_ne_nil_of_right_ne_nil front hne⟩

/-! ## Scans split texts -/

theorem wholeWord_splits {word : List Char} (h : word ≠ []) : Splits (wholeWord word) := by
  intro s t r hs
  unfold wholeWord at hs
  split at hs
  · next hword =>
    split at hs
    · cases hs
      exact ⟨(Text.afterPrefix_eq_some_iff.1 hword).symm, h⟩
    · cases hs
  · cases hs

theorem name_splits : Splits name := by
  intro s t r h
  unfold name at h
  split at h
  · cases h
  · split at h
    · cases h
      simp
    · cases h

theorem dottedTail_append_eq {part : Scan} (h : Splits part) (fuel : Nat) (s : List Char) :
    (dottedTail part fuel s).1 ++ (dottedTail part fuel s).2 = s := by
  induction fuel generalizing s with
  | zero => rfl
  | succ fuel ih =>
    unfold dottedTail
    split
    · next s' =>
      split
      · next p r hpart =>
        have htail := ih r
        obtain ⟨rfl, -⟩ := h hpart
        dsimp only
        rw [List.cons_append, List.cons_append, List.append_assoc, htail]
      · rfl
    · rfl

theorem dotted_splits {part : Scan} (h : Splits part) : Splits (dotted part) := by
  intro s t r hs
  unfold dotted at hs
  split at hs
  · next p r' hpart =>
    cases hs
    obtain ⟨rfl, hne⟩ := h hpart
    exact ⟨by rw [List.append_assoc, dottedTail_append_eq h],
      List.append_ne_nil_of_left_ne_nil hne _⟩
  · cases hs

theorem dottedName_splits : Splits dottedName := dotted_splits name_splits

theorem typeName_splits : Splits typeName := by
  intro s t r h
  unfold typeName at h
  split at h
  · exact dottedName_splits.of_map ['.'] h
  · exact dottedName_splits h

theorem extensionName_splits : Splits extensionName := by
  intro s t r h
  unfold extensionName at h
  split at h
  · split at h
    · next htype =>
      cases h
      obtain ⟨rfl, -⟩ := typeName_splits htype
      simp
    · cases h
  · cases h

theorem optionName_splits : Splits optionName :=
  dotted_splits (orElse_splits extensionName_splits name_splits)

theorem docComment_splits : Splits docComment := by
  intro s t r h
  unfold docComment at h
  split at h
  · exact throughCommentEnd_splits.of_map ['/', '*', '*'] h
  · cases h

theorem unsignedNumber_splits : Splits unsignedNumber := by
  intro s t r h
  unfold unsignedNumber at h
  split at h
  · cases h
  · split at h
    · cases h
      simp
    · cases h

theorem signed_splits {required : Bool} {scan : Scan} (h : Splits scan) :
    Splits (signed required scan) := by
  intro s t r hs
  unfold signed at hs
  split at hs
  · exact h.of_map ['-'] hs
  · exact h.of_map ['+'] hs
  · split at hs
    · cases hs
    · exact h hs

theorem throughClose_append {depth : Nat} {s t r : List Char}
    (h : throughClose depth s = some (t, r)) : t ++ r = s := by
  fun_induction throughClose depth s generalizing t with
  | case1 => cases h
  | case2 => cases h; rfl
  | case3 s' depth' ih =>
    obtain ⟨⟨t', r'⟩, ht, hr⟩ := Option.map_eq_some_iff.1 h
    cases hr
    exact congrArg ('}' :: ·) (ih ht)
  | case4 depth s' ih =>
    obtain ⟨⟨t', r'⟩, ht, hr⟩ := Option.map_eq_some_iff.1 h
    cases hr
    exact congrArg ('{' :: ·) (ih ht)
  | case5 depth c s' _ _ _ ih =>
    obtain ⟨⟨t', r'⟩, ht, hr⟩ := Option.map_eq_some_iff.1 h
    cases hr
    rw [List.append_assoc, ih ht, chunk_append]

theorem body_splits : Splits body := by
  intro s t r h
  unfold body at h
  split at h
  · obtain ⟨⟨t', r'⟩, ht, hr⟩ := Option.map_eq_some_iff.1 h
    cases hr
    simp [throughClose_append ht]
  · cases h

theorem opaqueRun_append_eq (s : List Char) : (opaqueRun s).1 ++ (opaqueRun s).2 = s := by
  fun_induction opaqueRun s with
  | case1 => rfl
  | case2 => rfl
  | case3 c s' _ _ t r hrun ih =>
    rw [hrun] at ih
    rw [List.append_assoc, ih, chunk_append]

theorem opaqueDeclaration_splits : Splits opaqueDeclaration := by
  intro s t r h
  have hrun := opaqueRun_append_eq s
  unfold opaqueDeclaration at h
  split at h
  · cases h
  · next run r' hne heq =>
    cases h
    rw [heq] at hrun
    exact ⟨by simpa using hrun, by simp⟩
  · next run r' hne _ heq =>
    rw [heq] at hrun
    obtain ⟨happend, hne⟩ := body_splits.of_map run h
    exact ⟨happend.trans hrun, hne⟩

end RpcCatalog.Grammar
