import RpcCatalog.Proofs.Grammar.Naming
import RpcCatalog.Proofs.References

/-!
# Dotted names

Reading a dotted name and writing a reference undo each other.

* `DropsDot`: a text without the dot in front that it may have. `TypeReference.render_ofDotted_iff`
  says that this is how a text is written once it was read.
* `TypeReference.IsCanonical`: the references that are written in their own way;
  `TypeReference.ofDotted_render_eq_iff` says that exactly these are read back.
* `SameUpToDot`: texts that differ in one dot in front at most. Type names are read alike only if
  they are such texts.
* `TypeReference.dotted_roundTrip`: all of this together.
-/

set_option autoImplicit false

namespace RpcCatalog

open Grammar

/-! ## Dots in front -/

/-- The second text is the first without the dot in front that it may have. No other dot is taken
off, so it may begin with a dot in its turn. -/
def DropsDot (text bare : String) : Prop :=
  text = "." ++ bare ∨ (text = bare ∧ text.toList.head? ≠ some '.')

/-- The texts are equal, or one of them is the other with a dot in front. -/
def SameUpToDot (s t : String) : Prop := s = t ∨ s = "." ++ t ∨ t = "." ++ s

instance (text bare : String) : Decidable (DropsDot text bare) :=
  inferInstanceAs (Decidable (_ ∨ _))

instance (s t : String) : Decidable (SameUpToDot s t) := inferInstanceAs (Decidable (_ ∨ _))

section Dots

variable {s t text bare : String}

theorem eq_dot_append_iff : s = "." ++ t ↔ s.toList = '.' :: t.toList := by
  rw [← String.toList_inj, String.toList_append]
  rfl

theorem dropsDot_iff : DropsDot text bare ↔ bare.toList = Text.dropLeading '.' text.toList := by
  unfold DropsDot
  rw [eq_dot_append_iff, ← String.toList_inj]
  constructor
  · rintro (hdot | ⟨heq, hhead⟩)
    · rw [hdot, Text.dropLeading_cons_self]
    · rw [Text.dropLeading_eq_self_iff.2 hhead, heq]
  · intro h
    by_cases hhead : text.toList.head? = some '.'
    · obtain ⟨rest, hrest⟩ := List.head?_eq_some_iff.1 hhead
      rw [hrest, Text.dropLeading_cons_self] at h
      exact .inl (by rw [hrest, h])
    · exact .inr ⟨by rw [h, Text.dropLeading_eq_self_iff.2 hhead], hhead⟩

theorem DropsDot.sameUpToDot (hs : DropsDot s bare) (ht : DropsDot t bare) : SameUpToDot s t := by
  obtain rfl | ⟨rfl, -⟩ := hs
  · obtain rfl | ⟨rfl, -⟩ := ht
    · exact .inl rfl
    · exact .inr (.inl rfl)
  · obtain rfl | ⟨rfl, -⟩ := ht
    · exact .inr (.inr rfl)
    · exact .inl rfl

theorem not_mem_of_not_mem_tail {c : Char} {s : List Char} (hhead : s.head? ≠ some c)
    (htail : c ∉ s.tail) : c ∉ s := by
  cases s with
  | nil => exact List.not_mem_nil
  | cons d s =>
    rw [List.mem_cons, not_or]
    exact ⟨fun hd => hhead (by rw [hd, List.head?_cons]), htail⟩

end Dots

/-! ## Reading and writing -/

namespace TypeReference

/-- The name has no dot in it, and the package, if there is one, is not empty and does not begin
with a dot. -/
structure IsCanonical (reference : TypeReference) : Prop where
  name : '.' ∉ reference.name.toList
  package : ∀ package, reference.package = some package →
    package ≠ "" ∧ package.toList.head? ≠ some '.'

variable {text bare : String} {reference : TypeReference}

theorem toList_render_ofDotted (text : String) :
    (ofDotted text).render.toList = Text.dropLeading '.' text.toList := by
  obtain ⟨front, last, hchars, -, -, heq⟩ | ⟨-, heq⟩ := ofDotted_cases text
  · rw [heq, hchars]
    simp [render]
  · rw [heq]
    exact String.toList_ofList

theorem render_ofDotted_iff : (ofDotted text).render = bare ↔ DropsDot text bare := by
  rw [dropsDot_iff, ← toList_render_ofDotted, String.toList_inj, eq_comm]

/-- No two texts stand for one reference, unless the dot in front makes the difference. -/
theorem ofDotted_eq_iff {s t : String} :
    ofDotted s = ofDotted t ↔ Text.dropLeading '.' s.toList = Text.dropLeading '.' t.toList := by
  constructor
  · intro h
    rw [← toList_render_ofDotted, h, toList_render_ofDotted]
  · intro h
    unfold ofDotted
    rw [h]

theorem IsCanonical.ofDotted_render (h : reference.IsCanonical) :
    ofDotted reference.render = reference := by
  obtain ⟨name, package⟩ := reference
  cases package with
  | none =>
    have hchars : Text.dropLeading '.' name.toList = name.toList :=
      Text.dropLeading_eq_self_iff.2 fun hhead => h.name (List.mem_of_head? hhead)
    have htail : '.' ∉ (Text.dropLeading '.' name.toList).tail := by
      rw [hchars]
      exact fun hmem => h.name (List.mem_of_mem_tail hmem)
    rw [render, ofDotted_eq_of_dot_not_mem htail, hchars, String.ofList_toList]
  | some package =>
    obtain ⟨hne, hhead⟩ := h.package package rfl
    have hne' : package.toList ≠ [] := by simpa using hne
    have htext : (render ⟨name, some package⟩).toList = package.toList ++ '.' :: name.toList := by
      simp [render]
    have hchars : Text.dropLeading '.' (render ⟨name, some package⟩).toList =
        package.toList ++ '.' :: name.toList := by
      rw [htext, Text.dropLeading_eq_self_iff, List.head?_append_of_ne_nil _ hne']
      exact hhead
    rw [ofDotted_eq_of_append hchars hne' h.name, String.ofList_toList, String.ofList_toList]

/-- What was read from a text that does not begin with a dot is canonical. -/
theorem ofDotted_isCanonical (h : text.toList.head? ≠ some '.') : (ofDotted text).IsCanonical := by
  have hchars := Text.dropLeading_eq_self_iff.2 h
  obtain ⟨front, last, hsplit, hne, hlast, heq⟩ | ⟨htail, heq⟩ := ofDotted_cases text
  · rw [heq]
    refine ⟨by rwa [String.toList_ofList], fun package hpackage => ?_⟩
    obtain rfl := Option.some.inj hpackage
    -- The package is the front of the text itself, and begins as the text does.
    rw [hchars] at hsplit
    rw [hsplit, List.head?_append_of_ne_nil _ hne] at h
    exact ⟨by simpa using hne, by rwa [String.toList_ofList]⟩
  · rw [hchars] at htail heq
    rw [heq]
    refine ⟨?_, nofun⟩
    rw [String.toList_ofList]
    exact not_mem_of_not_mem_tail h htail

/-- Exactly the canonical references are read back as they were written. -/
theorem ofDotted_render_eq_iff : ofDotted reference.render = reference ↔ reference.IsCanonical := by
  refine ⟨fun h => ?_, IsCanonical.ofDotted_render⟩
  -- What is written begins with a dot only if that dot is lost in reading.
  have hrender := toList_render_ofDotted reference.render
  rw [h, eq_comm, Text.dropLeading_eq_self_iff] at hrender
  exact h ▸ ofDotted_isCanonical hrender

/-! ## Type names -/

/-- Behind the dot of an absolute type name there is no other one to take off. -/
theorem ofDotted_dot_append {text : String} (h : IsTypeName ("." ++ text).toList) :
    ofDotted ("." ++ text) = ofDotted text := by
  have hchars : Text.dropLeading '.' ("." ++ text).toList = text.toList :=
    (dropsDot_iff.1 (.inl rfl)).symm
  have hdotted := h.isDotted_dropLeading
  rw [hchars] at hdotted
  rw [ofDotted_eq_iff, hchars, eq_comm, Text.dropLeading_eq_self_iff]
  exact hdotted.head?_ne_dot

theorem ofDotted_eq_iff_sameUpToDot {s t : String} (hs : IsTypeName s.toList)
    (ht : IsTypeName t.toList) : ofDotted s = ofDotted t ↔ SameUpToDot s t := by
  constructor
  · intro h
    have hdrops : DropsDot s (ofDotted s).render := render_ofDotted_iff.1 rfl
    have hdrops' : DropsDot t (ofDotted s).render := render_ofDotted_iff.1 (by rw [h])
    exact hdrops.sameUpToDot hdrops'
  · rintro (rfl | rfl | rfl)
    · rfl
    · exact ofDotted_dot_append hs
    · exact (ofDotted_dot_append ht).symm

/-- Reading and writing dotted names undo each other: a text that was read is written without the
dot in front that it may have, and the references that are read back as they were written are
exactly those with no dot in the name and a package, if any, that is not empty and does not begin
with a dot. So the texts that the grammar takes for type names stand for the same reference if and
only if they differ in one dot in front at most. -/
theorem dotted_roundTrip :
    (∀ text bare : String, (ofDotted text).render = bare ↔ DropsDot text bare) ∧
    (∀ reference : TypeReference, ofDotted reference.render = reference ↔ reference.IsCanonical) ∧
    ∀ (s t : String) (r r' : List Char), Takes typeName s.toList r → Takes typeName t.toList r' →
      (ofDotted s = ofDotted t ↔ SameUpToDot s t) :=
  ⟨fun _ _ => render_ofDotted_iff, fun _ => ofDotted_render_eq_iff, fun _ _ _ _ hs ht =>
    ofDotted_eq_iff_sameUpToDot (isTypeName_of_takes hs) (isTypeName_of_takes ht)⟩

/-- A text with dots at its ends, a reference that no type name stands for, and two spellings of a
type name. -/
theorem spelled_dotted_roundTrip :
    (ofDotted "..é.").render = ".é." ∧
    ofDotted (render ⟨"É", some "a..ß"⟩) = ⟨"É", some "a..ß"⟩ ∧
    Takes typeName ".a.b.C".toList [')'] ∧ Takes typeName "a.b.C".toList [] ∧
    ofDotted ".a.b.C" = ofDotted "a.b.C" := by
  obtain ⟨hrender, hread, hsame⟩ := dotted_roundTrip
  have hcanonical : IsCanonical ⟨"É", some "a..ß"⟩ := by
    refine ⟨by decide, fun package hpackage => ?_⟩
    obtain rfl := Option.some.inj hpackage
    decide
  have htakes : Takes typeName ".a.b.C".toList [')'] := by cbv
  have htakes' : Takes typeName "a.b.C".toList [] := by cbv
  exact ⟨(hrender _ _).2 (by decide), (hread _).2 hcanonical, htakes, htakes',
    (hsame _ _ _ _ htakes htakes').2 (by decide)⟩

/-- No type name begins with two dots, and other texts that differ in one of them need not be read
alike. -/
example : SameUpToDot "..A" ".A" ∧ ofDotted "..A" ≠ ofDotted ".A" := by
  decide

end TypeReference

end RpcCatalog
