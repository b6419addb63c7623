import Mathlib
import RpcCatalog.Proofs.NameMap
import RpcCatalog.SymbolTable.TypeRegistry

/-!
# Type registries

What a registration does to a type registry, in terms of the messages that are found in it.

* `TypeRegistry.find?_register`, `TypeRegistry.isSome_package?_register`: the messages and packages
  of a registry after a registration.
* `TypeRegistry.ext_find?`: registries that know the same are equal.
* `TypeRegistry.keys`: the messages that a registry knows; there are as many as its size says.
* `TypeRegistry.IsFilled`: no package is known without a message.
-/

set_option autoImplicit false

namespace RpcCatalog

namespace TypeRegistry

/-! ## Lookups -/

theorem find?_register (registry : TypeRegistry) (package package' : Option String)
    (name name' : String) (entry : TypeEntry) :
    (registry.register package name entry).find? package' name' =
      if package.getD "" = package'.getD "" ∧ name = name'
      then some ((registry.find? package' name').getD entry)
      else registry.find? package' name' := by
  unfold register find? package?
  rw [NameMap.find?_insert]
  by_cases hpackage : package'.getD "" = package.getD ""
  · rw [if_pos hpackage, hpackage, Option.bind_some, NameMap.find?_insertNew]
    by_cases hname : name' = name
    · subst hname
      rw [if_pos rfl, if_pos ⟨rfl, rfl⟩]
      cases registry.packages.find? (package.getD "") <;> rfl
    · rw [if_neg hname, if_neg fun h => hname h.2.symm]
      cases registry.packages.find? (package.getD "") <;> rfl
  · rw [if_neg hpackage, if_neg fun h => hpackage h.1.symm]

theorem isSome_package?_register (registry : TypeRegistry)
    (package package' : Option String) (name : String) (entry : TypeEntry) :
    ((registry.register package name entry).package? package').isSome ↔
      (registry.package? package').isSome ∨ package.getD "" = package'.getD "" := by
  unfold register package?
  rw [NameMap.find?_insert]
  by_cases hpackage : package'.getD "" = package.getD ""
  · simp [hpackage]
  · simp [hpackage, Ne.symm hpackage]

/-- Registries that know the same packages, and the same messages with the same entries, are
equal. -/
theorem ext_find? {registry registry' : TypeRegistry}
    (hpackage : ∀ package,
      (registry.package? package).isSome ↔ (registry'.package? package).isSome)
    (hfind : ∀ package name, registry.find? package name = registry'.find? package name) :
    registry = registry' := by
  obtain ⟨packages⟩ := registry
  obtain ⟨packages'⟩ := registry'
  refine congrArg TypeRegistry.mk (NameMap.ext_find? fun package => ?_)
  have hpackage := hpackage (some package)
  have hfind := hfind (some package)
  simp only [package?, find?, Option.getD_some] at hpackage hfind
  cases h : packages.find? package with
  | none =>
    rw [h] at hpackage
    exact (Option.not_isSome_iff_eq_none.1 fun hsome => by cases hpackage.2 hsome).symm
  | some types =>
    rw [h] at hpackage hfind
    obtain ⟨types', h'⟩ := Option.isSome_iff_exists.1 (hpackage.1 rfl)
    rw [h'] at hfind ⊢
    exact congrArg some (NameMap.ext_find? hfind)

/-! ## Sizes -/

theorem size_eq_sum (registry : TypeRegistry) :
    registry.size = (registry.packages.entries.map fun entry => entry.2.size).sum := by
  rw [List.sum, List.foldr_map]
  rfl

theorem size_le_register (registry : TypeRegistry) (package : Option String)
    (name : String) (entry : TypeEntry) :
    registry.size ≤ (registry.register package name entry).size := by
  obtain ⟨front, old, back, hentries, hinsert, hold⟩ :=
    registry.packages.insert_splits (package.getD "")
      (((registry.package? package).getD .empty).insertNew name entry)
  rw [size_eq_sum, size_eq_sum, register, hinsert, hentries]
  simp only [List.map_append, List.map_cons, List.sum_append, List.sum_cons]
  obtain rfl | ⟨types, rfl, hfind⟩ := hold
  · simp
  · have hle := types.size_le_insertNew name entry
    rw [package?, hfind, Option.getD_some]
    simp only [List.map_cons, List.map_nil, List.sum_cons, List.sum_nil]
    omega

/-! ## Messages -/

/-- What a message is known under; one without a package is known under the empty package. -/
def key (package : Option String) (name : String) : String × String := (package.getD "", name)

/-- What the messages of a registry are known under, package by package. -/
def keys (registry : TypeRegistry) : List (String × String) :=
  registry.packages.entries.flatMap fun (package, types) =>
    types.entries.map fun (name, _) => (package, name)

theorem mem_keys {registry : TypeRegistry} {package : Option String} {name : String} :
    key package name ∈ registry.keys ↔ (registry.find? package name).isSome := by
  unfold keys key find? package?
  rw [List.mem_flatMap]
  constructor
  · rintro ⟨⟨package', types⟩, hpackage, hname⟩
    obtain ⟨⟨name', entry⟩, hentry, heq⟩ := List.mem_map.1 hname
    cases heq
    have htypes : registry.packages.find? (package.getD "") = some types :=
      NameMap.mem_entries_iff.1 hpackage
    have hfind : types.find? name = some entry := NameMap.mem_entries_iff.1 hentry
    rw [htypes, Option.bind_some, hfind, Option.isSome_some]
  · intro hsome
    obtain ⟨entry, hfind⟩ := Option.isSome_iff_exists.1 hsome
    obtain ⟨types, htypes, hentry⟩ := Option.bind_eq_some_iff.1 hfind
    refine ⟨(package.getD "", types), NameMap.mem_entries_iff.2 htypes, ?_⟩
    exact List.mem_map.2 ⟨(name, entry), NameMap.mem_entries_iff.2 hentry, rfl⟩

theorem nodup_keys (registry : TypeRegistry) : registry.keys.Nodup := by
  unfold keys
  rw [List.nodup_flatMap]
  constructor
  · rintro ⟨package, types⟩ -
    refine List.Nodup.of_map Prod.snd ?_
    rw [List.map_map]
    exact types.nodup_names
  · refine registry.packages.sorted.imp ?_
    rintro ⟨package, types⟩ ⟨package', types'⟩ hlt key hkey hkey'
    obtain ⟨_, -, rfl⟩ := List.mem_map.1 hkey
    obtain ⟨_, -, heq⟩ := List.mem_map.1 hkey'
    have hpackage : package' = package := congrArg Prod.fst heq
    exact String.lt_irrefl package (hpackage ▸ hlt)

theorem length_keys (registry : TypeRegistry) : registry.keys.length = registry.size := by
  unfold keys
  rw [size_eq_sum, List.length_flatMap]
  refine congrArg List.sum (List.map_congr_left fun entry _ => ?_)
  exact List.length_map _

/-- The size of a registry is the number of different things that its messages are known under. -/
theorem size_eq_card {registry : TypeRegistry} {keys : List (String × String)}
    (h : ∀ package name, (package, name) ∈ keys ↔ (registry.find? (some package) name).isSome) :
    registry.size = keys.toFinset.card := by
  have hsame : registry.keys.toFinset = keys.toFinset := by
    ext ⟨package, name⟩
    rw [List.mem_toFinset, List.mem_toFinset, h]
    exact @mem_keys registry (some package) name
  rw [← hsame, List.toFinset_card_of_nodup registry.nodup_keys, length_keys]

/-- Every package that is known has a message. -/
def IsFilled (registry : TypeRegistry) : Prop :=
  ∀ package types, registry.package? package = some types →
    ∃ name entry, types.find? name = some entry

theorem isFilled_empty : empty.IsFilled := nofun

theorem IsFilled.register {registry : TypeRegistry} (h : registry.IsFilled)
    (package : Option String) (name : String) (entry : TypeEntry) :
    (registry.register package name entry).IsFilled := by
  intro package' types htypes
  unfold TypeRegistry.register package? at htypes
  rw [NameMap.find?_insert] at htypes
  by_cases hpackage : package'.getD "" = package.getD ""
  · rw [if_pos hpackage] at htypes
    cases htypes
    exact ⟨name, _, by rw [NameMap.find?_insertNew, if_pos rfl]⟩
  · rw [if_neg hpackage] at htypes
    exact h package' types htypes

end TypeRegistry

end RpcCatalog
