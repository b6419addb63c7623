/-!
# Maps keyed by names

Finite maps from names to values, as lists of pairs in increasing order of their names. The order is
part of the type, so that two maps with the same values under the same names are equal
(`NameMap.ext_find?`), whatever the order in which they were filled.

* `NameMap.find?`: the view of a map; every operation is described through it.
* `NameMap.insert`: puts a value under a name, in place of the one there.
* `NameMap.insertNew`: puts a value under a name that has none.
* `NameMap.erase`: takes the value of a name away.
-/

set_option autoImplicit false

namespace RpcCatalog

universe u

/-- A finite map keyed by names. -/
structure NameMap (β : Type u) where
  entries : List (String × β)
  /-- Each name occurs once, and after all smaller ones. -/
  sorted : entries.Pairwise (·.1 < ·.1)

namespace NameMap

variable {β : Type u}

instance [DecidableEq β] : DecidableEq (NameMap β) := fun a b =>
  decidable_of_iff (a.entries = b.entries)
    ⟨fun h => by cases a; cases b; cases h; rfl, fun h => h ▸ rfl⟩

def empty : NameMap β := ⟨[], .nil⟩

instance : EmptyCollection (NameMap β) := ⟨empty⟩

instance : Inhabited (NameMap β) := ⟨empty⟩

def size (map : NameMap β) : Nat := map.entries.length

def isEmpty (map : NameMap β) : Bool := map.entries.isEmpty

/-- The value under a key, in pairs of any kind of keys. -/
def findIn {κ : Type} [DecidableEq κ] (key : κ) : List (κ × β) → Option β
  | [] => none
  | (k, b) :: rest => if key = k then some b else findIn key rest

def find? (map : NameMap β) (name : String) : Option β := findIn name map.entries

/-! ## Insertion -/

/-- The pairs, in increasing order of their keys, with a value put under a key. -/
def insertIn {κ : Type} [DecidableEq κ] [LT κ] [DecidableLT κ] (key : κ) (b : β) :
    List (κ × β) → List (κ × β)
  | [] => [(key, b)]
  | (k, c) :: rest =>
    if key < k then (key, b) :: (k, c) :: rest
    else if key = k then (key, b) :: rest
    else (k, c) :: insertIn key b rest

theorem mem_insertIn {name : String} {b : β} {rest : List (String × β)} {p : String × β}
    (h : p ∈ insertIn name b rest) : p = (name, b) ∨ p ∈ rest := by
  induction rest with
  | nil => simpa [insertIn] using h
  | cons q rest ih =>
    obtain ⟨n, c⟩ := q
    unfold insertIn at h
    split at h
    · simpa using h
    · split at h
      · rcases List.mem_cons.1 h with h | h
        · exact .inl h
        · exact .inr (List.mem_cons_of_mem _ h)
      · rcases List.mem_cons.1 h with h | h
        · exact .inr (h ▸ List.mem_cons_self)
        · exact (ih h).imp_right (List.mem_cons_of_mem _)

theorem lt_of_not_lt_of_ne {a b : String} (h : ¬a < b) (h' : a ≠ b) : b < a := by
  by_cases hba : b < a
  · exact hba
  · exact absurd (String.le_antisymm (String.not_lt.1 hba) (String.not_lt.1 h)) h'

theorem insertIn_sorted {name : String} {b : β} {rest : List (String × β)}
    (h : rest.Pairwise (·.1 < ·.1)) : (insertIn name b rest).Pairwise (·.1 < ·.1) := by
  induction rest with
  | nil => simp [insertIn]
  | cons q rest ih =>
    obtain ⟨n, c⟩ := q
    obtain ⟨hn, hrest⟩ := List.pairwise_cons.1 h
    unfold insertIn
    split
    · next hlt =>
      refine List.pairwise_cons.2 ⟨fun p hp => ?_, h⟩
      rcases List.mem_cons.1 hp with rfl | hp
      · exact hlt
      · exact String.lt_trans hlt (hn p hp)
    · next hnlt =>
      split
      · next heq =>
        subst heq
        exact List.pairwise_cons.2 ⟨hn, hrest⟩
      · next hne =>
        refine List.pairwise_cons.2 ⟨fun p hp => ?_, ih hrest⟩
        rcases mem_insertIn hp with rfl | hp
        · exact lt_of_not_lt_of_ne hnlt hne
        · exact hn p hp

/-- Puts a value under a name, in place of the one there. -/
def insert (map : NameMap β) (name : String) (b : β) : NameMap β :=
  ⟨insertIn name b map.entries, insertIn_sorted map.sorted⟩

/-- Puts a value under a name, unless the name has one. -/
def insertNew (map : NameMap β) (name : String) (b : β) : NameMap β :=
  match map.find? name with
  | some _ => map
  | none => map.insert name b

/-- Takes the value of a name away. -/
def erase (map : NameMap β) (name : String) : NameMap β :=
  ⟨map.entries.filter (·.1 ≠ name), map.sorted.filter _⟩

/-- The map of a list of pairs; the last pair of a name counts. -/
def ofList (pairs : List (String × β)) : NameMap β :=
  pairs.foldl (fun map pair => map.insert pair.1 pair.2) empty

/-! ## The view of each operation -/

@[simp] theorem find?_empty (name : String) : (empty : NameMap β).find? name = none := rfl

theorem findIn_insertIn (name name' : String) (b : β) (rest : List (String × β)) :
    findIn name' (insertIn name b rest) = if name' = name then some b else findIn name' rest := by
  induction rest with
  | nil => rfl
  | cons q rest ih =>
    obtain ⟨n, c⟩ := q
    unfold insertIn
    by_cases hlt : name < n
    · rw [if_pos hlt, findIn]
    · rw [if_neg hlt]
      by_cases heq : name = n
      · rw [if_pos heq, findIn, findIn, ← heq]
        by_cases h : name' = name
        · rw [if_pos h, if_pos h]
        · rw [if_neg h, if_neg h, if_neg h]
      · rw [if_neg heq, findIn, findIn, ih]
        by_cases hn : name' = n
        · rw [if_pos hn, if_pos hn, if_neg (fun h => heq (h.symm.trans hn))]
        · rw [if_neg hn, if_neg hn]

@[simp] theorem find?_insert (map : NameMap β) (name name' : String) (b : β) :
    (map.insert name b).find? name' = if name' = name then some b else map.find? name' :=
  findIn_insertIn name name' b map.entries

theorem find?_insertNew (map : NameMap β) (name name' : String) (b : β) :
    (map.insertNew name b).find? name' =
      if name' = name then some ((map.find? name).getD b) else map.find? name' := by
  unfold insertNew
  split
  · next c h =>
    by_cases hn : name' = name
    · rw [if_pos hn, hn, h, Option.getD_some]
    · rw [if_neg hn]
  · next h => rw [find?_insert, h, Option.getD_none]

theorem findIn_filter_ne (name name' : String) (rest : List (String × β)) :
    findIn name' (rest.filter (·.1 ≠ name)) = if name' = name then none else findIn name' rest := by
  induction rest with
  | nil => exact (ite_self _).symm
  | cons q rest ih =>
    obtain ⟨n, c⟩ := q
    by_cases hn : n = name
    · rw [List.filter_cons_of_neg (by simp [hn]), ih, findIn, hn]
      by_cases h : name' = name
      · rw [if_pos h, if_pos h]
      · rw [if_neg h, if_neg h, if_neg h]
    · rw [List.filter_cons_of_pos (by simp [hn]), findIn, findIn, ih]
      by_cases h : name' = n
      · rw [if_pos h, if_pos h, if_neg fun e => hn (h.symm.trans e)]
      · rw [if_neg h, if_neg h]

@[simp] theorem find?_erase (map : NameMap β) (name name' : String) :
    (map.erase name).find? name' = if name' = name then none else map.find? name' :=
  findIn_filter_ne name name' map.entries

theorem findIn_eq_none_of_lt {name : String} {rest : List (String × β)}
    (h : ∀ p ∈ rest, name < p.1) : findIn name rest = none := by
  induction rest with
  | nil => rfl
  | cons q rest ih =>
    obtain ⟨n, c⟩ := q
    have hn : name ≠ n := fun e => String.lt_irrefl n (e ▸ h (n, c) List.mem_cons_self)
    rw [findIn, if_neg hn]
    exact ih fun p hp => h p (List.mem_cons_of_mem _ hp)

theorem entries_eq_of_findIn_eq {as bs : List (String × β)} (has : as.Pairwise (·.1 < ·.1))
    (hbs : bs.Pairwise (·.1 < ·.1)) (h : ∀ name, findIn name as = findIn name bs) : as = bs := by
  induction as generalizing bs with
  | nil =>
    cases bs with
    | nil => rfl
    | cons q bs => simpa [findIn] using h q.1
  | cons p as ih =>
    cases bs with
    | nil => simpa [findIn] using h p.1
    | cons q bs =>
      obtain ⟨n, b⟩ := p
      obtain ⟨n', b'⟩ := q
      obtain ⟨hn, has'⟩ := List.pairwise_cons.1 has
      obtain ⟨hn', hbs'⟩ := List.pairwise_cons.1 hbs
      have hnn : n = n' := by
        by_cases heq : n = n'
        · exact heq
        · by_cases hlt : n < n'
          · have e := h n
            rw [findIn, if_pos rfl, findIn, if_neg heq,
              findIn_eq_none_of_lt fun p hp => String.lt_trans hlt (hn' p hp)] at e
            cases e
          · have hgt := lt_of_not_lt_of_ne hlt heq
            have e := h n'
            rw [findIn, if_neg (Ne.symm heq), findIn, if_pos rfl,
              findIn_eq_none_of_lt fun p hp => String.lt_trans hgt (hn p hp)] at e
            cases e
      subst hnn
      have hb : b = b' := by
        have e := h n
        rw [findIn, if_pos rfl, findIn, if_pos rfl] at e
        exact Option.some.inj e
      subst hb
      refine congrArg _ (ih has' hbs' fun name => ?_)
      by_cases hname : name = n
      · subst hname
        rw [findIn_eq_none_of_lt hn, findIn_eq_none_of_lt hn']
      · have e := h name
        rwa [findIn, if_neg hname, findIn, if_neg hname] at e

/-- Maps with the same values under the same names are equal. -/
theorem ext_find? {a b : NameMap β} (h : ∀ name, a.find? name = b.find? name) : a = b := by
  have e := entries_eq_of_findIn_eq a.sorted b.sorted h
  cases a
  cases b
  cases e
  rfl

end NameMap

end RpcCatalog
