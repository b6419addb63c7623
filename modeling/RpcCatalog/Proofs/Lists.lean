import Mathlib.Data.List.Forall2
import Mathlib.Data.List.Nodup

/-!
# Lists

What the developments need of lists beyond the libraries, and of results that may be errors.

* `List.forall_getLast?_iff`: what it means for the last of a list to have a property.
* `List.filter_filterMap_of_nodup`: what is kept of the images of distinct elements, where only one
  of them can give something that is kept.
* `List.IsFunctional`: pairs in which each key has one value.
* `List.mapM_except_eq_ok_iff`: a list converted as a whole is converted element by element.
* `List.Forall₂.comp`: lists that are related to one list are related to each other.
* `List.error?_mapM`: the error of a conversion is that of the first element that has one.
-/

set_option autoImplicit false

universe u v

/-! ## Results -/

namespace Except

variable {ε : Type u} {α : Type v}

/-- The error of a result, if it is one. -/
def error? : Except ε α → Option ε
  | ok _ => none
  | error e => some e

theorem error?_eq_some_iff {result : Except ε α} {e : ε} :
    result.error? = some e ↔ result = error e := by
  cases result <;> simp [error?]

theorem error?_eq_none_iff {result : Except ε α} :
    result.error? = none ↔ ∃ a, result = ok a := by
  cases result <;> simp [error?]

theorem bind_eq_ok_iff {β : Type v} {result : Except ε α} {f : α → Except ε β} {b : β} :
    result >>= f = ok b ↔ ∃ a, result = ok a ∧ f a = ok b := by
  cases result <;> simp [bind, Except.bind]

end Except

namespace List

variable {α : Type u} {β : Type v}

/-- The last element has a property if every element without it is followed by one with it. -/
theorem forall_getLast?_iff {P : α → Prop} {l : List α} :
    (∀ a ∈ l.getLast?, P a) ↔
      ∀ front a back, l = front ++ a :: back → ¬P a → ∃ b ∈ back, P b := by
  constructor
  · rintro hlast front a back rfl ha
    rw [getLast?_append, getLast?_cons, Option.some_or] at hlast
    cases hback : back.getLast? with
    | none =>
      rw [hback] at hlast
      exact absurd (hlast a rfl) ha
    | some b =>
      rw [hback] at hlast
      exact ⟨b, mem_of_getLast? hback, hlast b rfl⟩
  · intro hsplit a ha
    obtain ⟨front, rfl⟩ := getLast?_eq_some_iff.1 ha
    by_contra hP
    obtain ⟨b, hb, -⟩ := hsplit front a [] rfl hP
    cases hb

theorem getLast?_filter_of_getLast? {p : α → Bool} {l : List α} {a : α}
    (h : l.getLast? = some a) (ha : p a) : (l.filter p).getLast? = some a := by
  obtain ⟨front, rfl⟩ := getLast?_eq_some_iff.1 h
  simp [filter_append, ha]

theorem nodup_eraseDups [BEq α] [LawfulBEq α] (l : List α) : l.eraseDups.Nodup := by
  induction hlength : l.length using Nat.strongRecOn generalizing l with
  | ind n ih =>
    cases l with
    | nil => simp
    | cons a l =>
      rw [eraseDups_cons, nodup_cons]
      refine ⟨fun hmem => ?_, ih _ ?_ _ rfl⟩
      · simpa using (mem_filter.1 (mem_eraseDups.1 hmem)).2
      · have hle := length_filter_le (fun b => !b == a) l
        simp only [length_cons] at hlength
        omega

/-- Where only one element of a list without repetitions gives something that is kept, no more than
that is kept. -/
theorem filter_filterMap_of_nodup [DecidableEq β] {g : β → Option α} {p : α → Bool} {k : β}
    {l : List β} (hnodup : l.Nodup) (hkey : ∀ b a, g b = some a → p a → b = k) :
    (l.filterMap g).filter p = if k ∈ l then ((g k).filter p).toList else [] := by
  induction l with
  | nil => simp
  | cons b l ih =>
    obtain ⟨hb, hl⟩ := nodup_cons.1 hnodup
    have hhead : (g b).toList.filter p = ((g b).filter p).toList := by
      cases g b with
      | none => rfl
      | some a => by_cases ha : p a <;> simp [Option.filter, ha]
    have hcons : (b :: l).filterMap g = (g b).toList ++ l.filterMap g := by
      rw [filterMap_cons]
      cases g b <;> rfl
    rw [hcons, filter_append, ih hl, hhead]
    by_cases hbk : b = k
    · subst hbk
      rw [if_neg hb, if_pos mem_cons_self, append_nil]
    · have hnone : (g b).filter p = none := by
        rw [Option.filter_eq_none_iff]
        exact fun a ha hpa => hbk (hkey b a ha hpa)
      simp [hnone, Ne.symm hbk]

/-- Without the entries of a key, all other keys keep their values. -/
theorem lookup_filter_ne [BEq α] [LawfulBEq α] [DecidableEq α] (a b : α) (l : List (α × β)) :
    (l.filter (·.1 ≠ a)).lookup b = if b = a then none else l.lookup b := by
  induction l with
  | nil => exact (ite_self _).symm
  | cons entry l ih =>
    obtain ⟨c, d⟩ := entry
    by_cases hc : c = a
    · rw [filter_cons_of_neg (by simpa using hc), ih, lookup_cons, hc]
      by_cases hb : b = a
      · rw [if_pos hb, if_pos hb]
      · rw [if_neg hb, if_neg hb, beq_eq_false_iff_ne.2 hb]
    · rw [filter_cons_of_pos (by simpa using hc), lookup_cons, lookup_cons, ih]
      by_cases hb : b = a
      · rw [if_pos hb, if_pos hb, hb, beq_eq_false_iff_ne.2 (Ne.symm hc)]
      · rw [if_neg hb, if_neg hb]

/-! ## Pairs -/

/-- Pairs of one key have one value. -/
def IsFunctional (l : List (α × β)) : Prop := ∀ p ∈ l, ∀ q ∈ l, p.1 = q.1 → p.2 = q.2

theorem IsFunctional.perm {l l' : List (α × β)} (h : l.IsFunctional) (hperm : l'.Perm l) :
    l'.IsFunctional :=
  fun p hp q hq => h p (hperm.mem_iff.1 hp) q (hperm.mem_iff.1 hq)

section Pairs

variable [BEq α] [LawfulBEq α] {l l' : List (α × β)}

theorem mem_of_lookup_eq_some {a : α} {b : β} (h : l.lookup a = some b) : (a, b) ∈ l := by
  obtain ⟨front, back, rfl, -⟩ := lookup_eq_some_iff.1 h
  simp

theorem IsFunctional.lookup_eq_some_iff_mem (h : l.IsFunctional) {a : α} {b : β} :
    l.lookup a = some b ↔ (a, b) ∈ l := by
  refine ⟨mem_of_lookup_eq_some, fun hmem => ?_⟩
  cases hlookup : l.lookup a with
  | none =>
    have hne := lookup_eq_none_iff.1 hlookup (a, b) hmem
    simp at hne
  | some b' => exact congrArg some (h _ (mem_of_lookup_eq_some hlookup) _ hmem rfl)

theorem isFunctional_iff_lookup : l.IsFunctional ↔ ∀ p ∈ l, l.lookup p.1 = some p.2 := by
  constructor
  · exact fun h p hp => h.lookup_eq_some_iff_mem.2 hp
  · intro h p hp q hq heq
    have hlookup := h p hp
    rw [heq, h q hq] at hlookup
    exact (Option.some.inj hlookup).symm

theorem IsFunctional.lookup_perm (h : l.IsFunctional) (hperm : l'.Perm l) (a : α) :
    l'.lookup a = l.lookup a := by
  refine Option.ext fun b => ?_
  rw [h.lookup_eq_some_iff_mem, (h.perm hperm).lookup_eq_some_iff_mem, hperm.mem_iff]

end Pairs

/-! ## Conversions that may fail -/

theorem mapM_except_eq_ok_iff {ε : Type u} {f : α → Except ε β} {l : List α} {bs : List β} :
    l.mapM f = .ok bs ↔ Forall₂ (fun a b => f a = .ok b) l bs := by
  induction l generalizing bs with
  | nil =>
    rw [mapM_nil, forall₂_nil_left_iff]
    exact ⟨fun h => (Except.ok.inj h).symm, fun h => h ▸ rfl⟩
  | cons a l ih =>
    rw [mapM_cons, Except.bind_eq_ok_iff, forall₂_cons_left_iff]
    simp only [Except.bind_eq_ok_iff, ih]
    constructor
    · rintro ⟨b, hb, bs', hbs', h⟩
      exact ⟨b, bs', hb, hbs', (Except.ok.inj h).symm⟩
    · rintro ⟨b, bs', hb, hbs', rfl⟩
      exact ⟨b, hb, bs', hbs', rfl⟩

theorem error?_mapM {ε : Type u} (f : α → Except ε β) (l : List α) :
    (l.mapM f).error? = l.findSome? fun a => (f a).error? := by
  induction l with
  | nil => rfl
  | cons a l ih =>
    rw [mapM_cons, findSome?_cons]
    cases ha : f a with
    | error e => rfl
    | ok b =>
      rw [Except.error?, ← ih]
      cases hl : l.mapM f <;> rfl

/-- A conversion that undoes another gives the list back. -/
theorem mapM_map_eq_some {f : α → β} {g : β → Option α} (h : ∀ a, g (f a) = some a) (l : List α) :
    (l.map f).mapM g = some l := by
  have hpure : g ∘ f = (pure <| id ·) := funext h
  rw [mapM_map, hpure, mapM_pure, map_id]
  rfl

theorem findSome?_flatMap {γ : Type u} {g : α → List β} {f : β → Option γ} (l : List α) :
    (l.flatMap g).findSome? f = l.findSome? fun a => (g a).findSome? f := by
  induction l with
  | nil => rfl
  | cons a l ih =>
    rw [flatMap_cons, findSome?_append, findSome?_cons, ih]
    cases (g a).findSome? f <;> rfl

theorem Forall₂.comp {γ : Type u} {R : α → β → Prop} {S : β → γ → Prop} {T : α → γ → Prop}
    (hcomp : ∀ a b c, R a b → S b c → T a c) {l : List α} {l' : List β} {l'' : List γ}
    (h : Forall₂ R l l') (h' : Forall₂ S l' l'') : Forall₂ T l l'' := by
  induction h generalizing l'' with
  | nil =>
    cases h'
    exact .nil
  | cons hab _ ih =>
    cases h' with
    | cons hbc hrest => exact .cons (hcomp _ _ _ hab hbc) (ih hrest)

theorem Forall₂.exists_of_mem_left {R : α → β → Prop} {l : List α} {l' : List β}
    (h : Forall₂ R l l') {a : α} (ha : a ∈ l) : ∃ b ∈ l', R a b := by
  induction h with
  | nil => cases ha
  | cons hab _ ih =>
    obtain rfl | ha := mem_cons.1 ha
    · exact ⟨_, mem_cons_self, hab⟩
    · obtain ⟨b, hb, hR⟩ := ih ha
      exact ⟨b, mem_cons_of_mem _ hb, hR⟩

theorem Forall₂.exists_of_mem_right {R : α → β → Prop} {l : List α} {l' : List β}
    (h : Forall₂ R l l') {b : β} (hb : b ∈ l') : ∃ a ∈ l, R a b :=
  h.flip.exists_of_mem_left hb

end List
