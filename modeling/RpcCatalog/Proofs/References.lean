import RpcCatalog.Proofs.Grammar.Layout
import RpcCatalog.TypeReference

/-!
# Type references

A type name is cut at its last dot into a package and a name, and these are what they are called.

* `Text.splitLast_eq_some_iff`: where a text is cut.
* `TypeReference.ofDotted_cases`, `TypeReference.qualify_eq`: what a text is taken for, on its own
  and as seen from a package.
* `TypeReference.IsWellFormed`: the name of a reference is a name, its package a dotted one.
* `TypeReference.qualify_isWellFormed`: so are those of a type name seen from a package.
-/

set_option autoImplicit false

namespace RpcCatalog

/-! ## Last dots -/

namespace Text

theorem splitLast_eq_none_iff {c : Char} {s : List Char} : splitLast c s = none ↔ c ∉ s := by
  induction s with
  | nil => exact ⟨fun _ => List.not_mem_nil, fun _ => rfl⟩
  | cons d s ih =>
    rw [List.mem_cons, not_or, ← ih, splitLast]
    cases splitLast c s with
    | some split => simp
    | none => simp [eq_comm]

theorem splitLast_append {c : Char} (front : List Char) {back : List Char} (h : c ∉ back) :
    splitLast c (front ++ c :: back) = some (front, back) := by
  induction front with
  | nil =>
    rw [List.nil_append, splitLast, splitLast_eq_none_iff.2 h]
    exact if_pos rfl
  | cons d front ih => rw [List.cons_append, splitLast, ih]

/-- A text is cut at an occurrence behind which there is no other. -/
theorem splitLast_eq_some_iff {c : Char} {s front back : List Char} :
    splitLast c s = some (front, back) ↔ s = front ++ c :: back ∧ c ∉ back := by
  constructor
  · intro h
    induction s generalizing front with
    | nil => cases h
    | cons d s ih =>
      rw [splitLast] at h
      split at h
      · next hsplit =>
        cases h
        obtain ⟨rfl, hback⟩ := ih hsplit
        exact ⟨rfl, hback⟩
      · next hsplit =>
        split at h
        · next hd =>
          cases h
          exact ⟨by rw [hd, List.nil_append], splitLast_eq_none_iff.1 hsplit⟩
        · cases h
  · rintro ⟨rfl, hback⟩
    exact splitLast_append front hback

end Text

namespace Grammar

variable {n : List Char}

theorem IsName.dot_not_mem (h : IsName n) : '.' ∉ n := by
  obtain ⟨c, s, rfl, hc, hs⟩ := h
  intro hmem
  obtain rfl | hmem := List.mem_cons.1 hmem
  · cases hc
  · cases hs '.' hmem

/-- A dotted name is a name, or a name behind a shorter one and a dot. -/
theorem IsDotted.isName_or_exists (h : IsDotted n) :
    IsName n ∨ ∃ front last, n = front ++ '.' :: last ∧ IsDotted front ∧ IsName last := by
  induction h with
  | name h => exact .inl h
  | @dot n m hn _ ih =>
    obtain hm | ⟨front, last, rfl, hfront, hlast⟩ := ih
    · exact .inr ⟨n, m, rfl, .name hn, hm⟩
    · exact .inr ⟨n ++ '.' :: front, last, by simp, .dot hn hfront, hlast⟩

theorem IsDotted.head?_ne_dot (h : IsDotted n) : n.head? ≠ some '.' := by
  obtain ⟨c, s, rfl, hc⟩ := h.exists_cons
  rw [List.head?_cons, ne_eq, Option.some_inj]
  rintro rfl
  cases hc

/-- A type name is a dotted name but for the dot in front that it may have. -/
theorem IsTypeName.isDotted_dropLeading (h : IsTypeName n) :
    IsDotted (Text.dropLeading '.' n) := by
  cases h with
  | relative h => rwa [Text.dropLeading_eq_self_iff.2 h.head?_ne_dot]
  | absolute h => rwa [Text.dropLeading_cons_self]

end Grammar

open Grammar

/-! ## Dotted names -/

namespace TypeReference

/-- A dot at the very front has no package before it. -/
theorem ofDotted_eq_of_dot_not_mem {text : String}
    (h : '.' ∉ (Text.dropLeading '.' text.toList).tail) :
    ofDotted text = ⟨String.ofList (Text.dropLeading '.' text.toList), none⟩ := by
  unfold ofDotted
  dsimp only
  split
  · next hsplit =>
    obtain ⟨hchars, -⟩ := Text.splitLast_eq_some_iff.1 hsplit
    rw [hchars] at h
    exact absurd (by simp) h
  · rfl

theorem ofDotted_eq_of_append {text : String} {front last : List Char}
    (h : Text.dropLeading '.' text.toList = front ++ '.' :: last) (hne : front ≠ [])
    (hlast : '.' ∉ last) : ofDotted text = ⟨String.ofList last, some (String.ofList front)⟩ := by
  obtain ⟨c, front, rfl⟩ := List.exists_cons_of_ne_nil hne
  rw [ofDotted, h, Text.splitLast_append _ hlast]

/-- Without the dot in front, a text is cut at its last dot, unless there is none or nothing stands
before it: then all of it is the name. -/
theorem ofDotted_cases (text : String) :
    (∃ front last, Text.dropLeading '.' text.toList = front ++ '.' :: last ∧ front ≠ [] ∧
      '.' ∉ last ∧ ofDotted text = ⟨String.ofList last, some (String.ofList front)⟩) ∨
    ('.' ∉ (Text.dropLeading '.' text.toList).tail ∧
      ofDotted text = ⟨String.ofList (Text.dropLeading '.' text.toList), none⟩) := by
  cases hsplit : Text.splitLast '.' (Text.dropLeading '.' text.toList) with
  | none =>
    have htail := fun h => Text.splitLast_eq_none_iff.1 hsplit (List.mem_of_mem_tail h)
    exact .inr ⟨htail, ofDotted_eq_of_dot_not_mem htail⟩
  | some split =>
    obtain ⟨front, last⟩ := split
    obtain ⟨hchars, hlast⟩ := Text.splitLast_eq_some_iff.1 hsplit
    cases front with
    | nil =>
      have htail : '.' ∉ (Text.dropLeading '.' text.toList).tail := by rwa [hchars]
      exact .inr ⟨htail, ofDotted_eq_of_dot_not_mem htail⟩
    | cons c front =>
      have hne := List.cons_ne_nil c front
      exact .inl ⟨c :: front, last, hchars, hne, hlast, ofDotted_eq_of_append hchars hne hlast⟩

/-- The package that a name says itself counts, or else the one that it is seen from. -/
theorem qualify_eq (text : String) (package : Option String) :
    qualify text package = ⟨(ofDotted text).name, (ofDotted text).package.or package⟩ := by
  unfold qualify
  dsimp only
  split
  · next h => rw [h, Option.some_or, ← h]
  · next h => rw [h, Option.none_or]

/-! ## Well-formed references -/

/-- The name of a reference is a name, and its package, if there is one, a dotted name. -/
structure IsWellFormed (reference : TypeReference) : Prop where
  name : IsName reference.name.toList
  package : ∀ package, reference.package = some package → IsDotted package.toList

theorem ofDotted_isWellFormed {text : String} (h : IsTypeName text.toList) :
    (ofDotted text).IsWellFormed := by
  have hdotted := h.isDotted_dropLeading
  obtain hname | ⟨front, last, htext, hfront, hlast⟩ := hdotted.isName_or_exists
  · rw [ofDotted_eq_of_dot_not_mem fun h => hname.dot_not_mem (List.mem_of_mem_tail h)]
    exact ⟨by rwa [String.toList_ofList], nofun⟩
  · rw [ofDotted_eq_of_append htext hfront.ne_nil hlast.dot_not_mem]
    refine ⟨by rwa [String.toList_ofList], fun package hpackage => ?_⟩
    cases hpackage
    rwa [String.toList_ofList]

/-- A type name that is seen from a package, or from none, is a well-formed reference. -/
theorem qualify_isWellFormed {text : String} {package : Option String}
    (h : IsTypeName text.toList) (hpackage : ∀ p, package = some p → IsDotted p.toList) :
    (qualify text package).IsWellFormed := by
  have hreference := ofDotted_isWellFormed h
  rw [qualify_eq]
  refine ⟨hreference.name, fun p hp => ?_⟩
  obtain hp | ⟨-, hp⟩ := Option.or_eq_some_iff.1 hp
  · exact hreference.package p hp
  · exact hpackage p hp

end TypeReference

end RpcCatalog
