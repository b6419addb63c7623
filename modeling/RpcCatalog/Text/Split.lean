/-!
# Splitting texts

* `splitOn`: all pieces between the occurrences of a character.
* `splitLast`: the two sides of the last occurrence of a character.
* `afterPrefix`, `beforeSuffix`: what is left of a text that starts or ends with another
  (`afterPrefix_eq_some_iff`, `beforeSuffix_eq_some_iff`).
* `dropLeading`: a text without the character at its front, where that is a given one
  (`dropLeading_cons_self`, `dropLeading_eq_self_iff`).
-/

set_option autoImplicit false

namespace RpcCatalog.Text

/-- The pieces between the occurrences of a character; always at least one. -/
def splitOn (separator : Char) : List Char → List (List Char)
  | [] => [[]]
  | c :: s =>
    if c = separator then [] :: splitOn separator s
    else
      match splitOn separator s with
      | [] => [[c]]
      | piece :: pieces => (c :: piece) :: pieces

theorem splitOn_eq (c : Char) (s : List Char) : splitOn c s = s.splitOn c := by
  induction s with
  | nil => rfl
  | cons d s ih =>
    rw [splitOn, ih, List.splitOn, List.splitOn, List.splitOnP_cons_eq_if_modifyHead]
    simp only [beq_iff_eq]
    split
    · rfl
    · cases h : List.splitOnP (fun x => x == c) s with
      | nil => exact absurd h (List.splitOnP_ne_nil _ _)
      | cons piece pieces => rfl

/-- The text before and the text after the last occurrence of a character. -/
def splitLast (separator : Char) : List Char → Option (List Char × List Char)
  | [] => none
  | c :: s =>
    match splitLast separator s with
    | some (before, after) => some (c :: before, after)
    | none => if c = separator then some ([], s) else none

/-- What follows `start` in a text that starts with it. -/
def afterPrefix : List Char → List Char → Option (List Char)
  | [], s => some s
  | _ :: _, [] => none
  | w :: start, c :: s => if w = c then afterPrefix start s else none

theorem afterPrefix_eq_some_iff {start s r : List Char} :
    afterPrefix start s = some r ↔ s = start ++ r := by
  induction start generalizing s with
  | nil => simp [afterPrefix]
  | cons w start ih =>
    cases s with
    | nil => simp [afterPrefix]
    | cons c s =>
      rw [afterPrefix]
      split
      · next h => simp [h, ih]
      · next h => simp [Ne.symm h]

/-- What precedes `tail` in a text that ends with it. -/
def beforeSuffix (tail s : List Char) : Option (List Char) :=
  (afterPrefix tail.reverse s.reverse).map List.reverse

theorem beforeSuffix_eq_some_iff {tail s r : List Char} :
    beforeSuffix tail s = some r ↔ s = r ++ tail := by
  simp only [beforeSuffix, Option.map_eq_some_iff, afterPrefix_eq_some_iff]
  constructor
  · rintro ⟨t, h, rfl⟩
    rw [← List.reverse_inj, h, List.reverse_append, List.reverse_reverse]
  · rintro rfl
    exact ⟨r.reverse, List.reverse_append, List.reverse_reverse r⟩

/-- The text without the character at its front, where that is `c`. -/
def dropLeading (c : Char) : List Char → List Char
  | [] => []
  | d :: s => if d = c then s else d :: s

theorem dropLeading_cons_self (c : Char) (s : List Char) : dropLeading c (c :: s) = s := if_pos rfl

theorem dropLeading_eq_self_iff {c : Char} {s : List Char} :
    dropLeading c s = s ↔ s.head? ≠ some c := by
  cases s with
  | nil => simp [dropLeading]
  | cons d s =>
    rw [dropLeading, List.head?_cons, ne_eq, Option.some_inj]
    split
    · next h => exact ⟨fun heq => absurd heq.symm (List.cons_ne_self d s), fun hne => absurd h hne⟩
    · next h => exact ⟨fun _ => h, fun _ => rfl⟩

end RpcCatalog.Text
