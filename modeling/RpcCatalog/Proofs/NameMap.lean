import Mathlib.Data.List.Nodup
import RpcCatalog.NameMap

/-!
# Maps keyed by names

The entries of a map against its view, and what an insertion does to them.

* `NameMap.mem_entries_iff`: the entries of a map are what is found in it.
* `NameMap.insert_splits`: where an insertion puts its entry.
* `NameMap.ofList_entries`: a map is made of its entries.
-/

set_option autoImplicit false

namespace RpcCatalog

universe u

namespace NameMap

/-! ## Entries -/

section Entries

variable {β : Type u} {name : String} {b : β} {entries : List (String × β)}

theorem mem_of_findIn {κ : Type} [DecidableEq κ] {key : κ} {entries : List (κ × β)}
    (h : findIn key entries = some b) : (key, b) ∈ entries := by
  induction entries with
  | nil => cases h
  | cons entry rest ih =>
    rw [findIn] at h
    split at h
    · next hname =>
      cases h
      rw [hname]
      exact List.mem_cons_self
    · exact List.mem_cons_of_mem _ (ih h)

theorem findIn_of_mem {κ : Type} [DecidableEq κ] {key : κ} {entries : List (κ × β)}
    (hdistinct : entries.Pairwise (·.1 ≠ ·.1)) (h : (key, b) ∈ entries) :
    findIn key entries = some b := by
  induction hdistinct with
  | nil => cases h
  | @cons entry rest hfirst _ ih =>
    obtain rfl | h := List.mem_cons.1 h
    · exact if_pos rfl
    · have hne : key ≠ entry.1 := fun e => hfirst _ h e.symm
      rw [findIn, if_neg hne]
      exact ih h

theorem distinct (map : NameMap β) : map.entries.Pairwise (·.1 ≠ ·.1) := by
  refine map.sorted.imp ?_
  intro a c hlt heq
  exact String.lt_irrefl c.1 (heq ▸ hlt)

theorem mem_entries_iff {map : NameMap β} : (name, b) ∈ map.entries ↔ map.find? name = some b :=
  ⟨findIn_of_mem map.distinct, mem_of_findIn⟩

theorem nodup_names (map : NameMap β) : (map.entries.map Prod.fst).Nodup :=
  List.pairwise_map.2 map.distinct

end Entries

/-! ## Insertion -/

section Insertion

variable {β : Type u}

/-- An insertion takes the entry of the name out, if there is one, and puts the new one in. -/
theorem insertIn_splits (name : String) (b : β) (rest : List (String × β)) :
    ∃ front old back, rest = front ++ old ++ back ∧
      insertIn name b rest = front ++ (name, b) :: back ∧
      (old = [] ∨ ∃ c, old = [(name, c)] ∧ findIn name rest = some c) := by
  induction rest with
  | nil => exact ⟨[], [], [], rfl, rfl, .inl rfl⟩
  | cons entry rest ih =>
    obtain ⟨n, c⟩ := entry
    unfold insertIn findIn
    split
    · exact ⟨[], [], (n, c) :: rest, rfl, rfl, .inl rfl⟩
    · split
      · next heq =>
        subst heq
        exact ⟨[], [(name, c)], rest, rfl, rfl, .inr ⟨c, rfl, rfl⟩⟩
      · obtain ⟨front, old, back, hrest, hinsert, hold⟩ := ih
        refine ⟨(n, c) :: front, old, back, ?_, ?_, hold⟩
        · rw [hrest]
          rfl
        · rw [hinsert]
          rfl

theorem insert_splits (map : NameMap β) (name : String) (b : β) :
    ∃ front old back, map.entries = front ++ old ++ back ∧
      (map.insert name b).entries = front ++ (name, b) :: back ∧
      (old = [] ∨ ∃ c, old = [(name, c)] ∧ map.find? name = some c) :=
  insertIn_splits name b map.entries

theorem size_le_insert (map : NameMap β) (name : String) (b : β) :
    map.size ≤ (map.insert name b).size := by
  obtain ⟨front, old, back, hentries, hinsert, hold⟩ := map.insert_splits name b
  have hlength : old.length ≤ 1 := by
    obtain rfl | ⟨c, rfl, -⟩ := hold
    · exact Nat.zero_le 1
    · exact Nat.le_refl 1
  rw [size, size, hinsert, hentries]
  simp only [List.length_append, List.length_cons]
  omega

theorem size_le_insertNew (map : NameMap β) (name : String) (b : β) :
    map.size ≤ (map.insertNew name b).size := by
  unfold insertNew
  split
  · exact Nat.le_refl _
  · exact map.size_le_insert name b

/-- Pairs with distinct names are all found in a map that they are put into. -/
theorem find?_foldl_insert {pairs : List (String × β)} (hnodup : (pairs.map Prod.fst).Nodup)
    (map : NameMap β) (name : String) :
    (pairs.foldl (fun map pair => map.insert pair.1 pair.2) map).find? name =
      (findIn name pairs).or (map.find? name) := by
  induction pairs generalizing map with
  | nil => exact (Option.none_or ..).symm
  | cons pair pairs ih =>
    rw [List.map_cons, List.nodup_cons] at hnodup
    obtain ⟨hfirst, hrest⟩ := hnodup
    rw [List.foldl_cons, ih hrest, find?_insert, findIn]
    by_cases hname : name = pair.1
    · have hnone : findIn name pairs = none := by
        refine Option.eq_none_iff_forall_not_mem.2 fun b hb => hfirst ?_
        exact hname ▸ List.mem_map_of_mem (mem_of_findIn hb)
      rw [hnone, if_pos hname, if_pos hname, Option.none_or, Option.some_or]
    · rw [if_neg hname, if_neg hname]

theorem ofList_entries (map : NameMap β) : ofList map.entries = map := by
  refine ext_find? fun name => ?_
  rw [ofList, find?_foldl_insert map.nodup_names, find?_empty, Option.or_none]
  rfl

end Insertion

end NameMap

end RpcCatalog
