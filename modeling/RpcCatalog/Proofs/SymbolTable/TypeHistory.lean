import RpcCatalog.Proofs.Resolution
import RpcCatalog.Proofs.SymbolTable.TypeRegistry

/-!
# Histories of type registries

A type registry is the map of its history in which the first message of a name counts.

* `TypeRegistry.Message`, `TypeRegistry.registerAll`: messages that are registered one after the
  other.
* `TypeRegistry.IsFirst`: the entry of the first message of a name in a package.
* `TypeRegistry.find?_registerAll`, `TypeRegistry.isSome_package?_registerAll`: the messages and
  packages of a registry after a history.
* `TypeRegistry.ofHistory_first_wins`: all that a registry tells, and how types are resolved by it,
  in terms of its history.
-/

set_option autoImplicit false

namespace RpcCatalog

namespace TypeRegistry

/-- A message that is registered in a package, or without one. -/
structure Message where
  package : Option String
  name : String
  entry : TypeEntry

def Message.key (message : Message) : String × String :=
  TypeRegistry.key message.package message.name

/-- A message of the package is in a history; no package is the same as the empty one. -/
def Mentions (history : List Message) (package : Option String) : Prop :=
  ∃ message ∈ history, message.package.getD "" = package.getD ""

/-- The first message of a history that has the name in the package has the entry. -/
def IsFirst (history : List Message) (package : Option String) (name : String)
    (entry : TypeEntry) : Prop :=
  ∃ front message back, history = front ++ message :: back ∧ message.key = key package name ∧
    message.entry = entry ∧ ∀ earlier ∈ front, earlier.key ≠ key package name

/-- The registry with messages registered one after another. -/
def registerAll (registry : TypeRegistry) (history : List Message) : TypeRegistry :=
  history.foldl
    (fun registry message => registry.register message.package message.name message.entry) registry

/-- The registry that a history leads to from the start. -/
def ofHistory (history : List Message) : TypeRegistry := empty.registerAll history

/-! ## What a history leads to -/

section History

variable {history : List Message} {package : Option String} {name : String} {entry : TypeEntry}

theorem find?_registerAll (registry : TypeRegistry) (history : List Message)
    (package : Option String) (name : String) :
    (registry.registerAll history).find? package name =
      (registry.find? package name).or
        ((history.find? fun message => message.key = key package name).map Message.entry) := by
  induction history generalizing registry with
  | nil => exact (Option.or_none ..).symm
  | cons message history ih =>
    have hrest : registry.registerAll (message :: history) =
        (registry.register message.package message.name message.entry).registerAll history := rfl
    rw [hrest, ih, find?_register, List.find?_cons]
    have hkey : message.key = key package name ↔
        message.package.getD "" = package.getD "" ∧ message.name = name := by
      rw [Message.key, key, key, Prod.mk.injEq]
    by_cases h : message.key = key package name
    · have hfound : decide (message.key = key package name) = true := decide_eq_true h
      rw [if_pos (hkey.1 h), hfound]
      cases registry.find? package name <;> rfl
    · have hpassed : decide (message.key = key package name) = false := decide_eq_false h
      rw [if_neg (fun h' => h (hkey.2 h')), hpassed]

theorem isSome_package?_registerAll (registry : TypeRegistry) (history : List Message)
    (package : Option String) :
    ((registry.registerAll history).package? package).isSome ↔
      (registry.package? package).isSome ∨ Mentions history package := by
  induction history generalizing registry with
  | nil => simp [registerAll, Mentions]
  | cons message history ih =>
    have hrest : registry.registerAll (message :: history) =
        (registry.register message.package message.name message.entry).registerAll history := rfl
    rw [hrest, ih, isSome_package?_register, or_assoc]
    simp only [Mentions, List.exists_mem_cons_iff]

theorem isFilled_registerAll {registry : TypeRegistry} (h : registry.IsFilled)
    (history : List Message) : (registry.registerAll history).IsFilled := by
  induction history generalizing registry with
  | nil => exact h
  | cons message history ih => exact ih (h.register message.package message.name message.entry)

theorem isFirst_iff :
    IsFirst history package name entry ↔ (ofHistory history).find? package name = some entry := by
  have hnone : empty.find? package name = none := rfl
  rw [ofHistory, find?_registerAll, hnone, Option.none_or, Option.map_eq_some_iff]
  simp only [List.find?_eq_some_iff_append, decide_eq_true_eq, Bool.not_eq_true',
    decide_eq_false_iff_not]
  constructor
  · rintro ⟨front, message, back, rfl, hkey, hentry, hfront⟩
    exact ⟨message, ⟨hkey, front, back, rfl, hfront⟩, hentry⟩
  · rintro ⟨message, ⟨hkey, front, back, rfl, hfront⟩, hentry⟩
    exact ⟨front, message, back, rfl, hkey, hentry, hfront⟩

theorem isSome_find?_ofHistory :
    ((ofHistory history).find? package name).isSome ↔
      key package name ∈ history.map Message.key := by
  have hnone : empty.find? package name = none := rfl
  rw [ofHistory, find?_registerAll, hnone, Option.none_or, Option.isSome_map, List.find?_isSome]
  simp only [decide_eq_true_eq, List.mem_map]

theorem isSome_package?_ofHistory :
    ((ofHistory history).package? package).isSome ↔ Mentions history package := by
  have hnone : (empty.package? package).isSome = false := rfl
  rw [ofHistory, isSome_package?_registerAll, hnone]
  simp

theorem size_ofHistory (history : List Message) :
    (ofHistory history).size = (history.map Message.key).toFinset.card :=
  size_eq_card fun package name => (@isSome_find?_ofHistory history (some package) name).symm

end History

/-! ## The first message of a name -/

/-- A registry holds for each name in each package the entry that was registered first; it knows the
packages that were mentioned, none of them without a message, and counts each name once. A type of
no overridden package is resolved to the first entry of its name; it is to blame if there is none,
and its package if that was never mentioned. -/
theorem ofHistory_first_wins (history : List Message) :
    (∀ package name entry, (ofHistory history).find? package name = some entry ↔
      IsFirst history package name entry) ∧
    (∀ package, ((ofHistory history).package? package).isSome ↔ Mentions history package) ∧
    (∀ package types, (ofHistory history).package? package = some types → types.isEmpty = false) ∧
    (ofHistory history).size = (history.map Message.key).toFinset.card ∧
    ((ofHistory history).isEmpty ↔ history = []) ∧
    ∀ table : SymbolTable, table.types = ofHistory history →
      ∀ reference, table.overrideOf reference = none →
        (table.resolveType reference = .error (.unresolvedPackage reference) ↔
          ¬ Mentions history reference.package) ∧
        (table.resolveType reference = .error (.unresolvedType reference) ↔
          Mentions history reference.package ∧
            key reference.package reference.name ∉ history.map Message.key) ∧
        ∀ type, table.resolveType reference = .ok type ↔
          ∃ entry, IsFirst history reference.package reference.name entry ∧
            type = { name := entry.name
                     package := ".".intercalate
                       ((entry.outputPackage :: entry.enclosingClasses).filter (· ≠ ""))
                     enclosingClasses := entry.enclosingClasses } := by
  refine ⟨fun _ _ _ => isFirst_iff.symm, fun _ => isSome_package?_ofHistory, ?_,
    size_ofHistory history, ?_, ?_⟩
  · intro package types htypes
    obtain ⟨name, entry, hentry⟩ := isFilled_registerAll isFilled_empty history package types htypes
    have hmem := NameMap.mem_entries_iff.2 hentry
    exact List.isEmpty_eq_false_iff_exists_mem.2 ⟨_, hmem⟩
  · rw [isEmpty, beq_iff_eq, size_ofHistory, Finset.card_eq_zero, List.toFinset_eq_empty_iff,
      List.map_eq_nil_iff]
  · intro table htypes reference hnone
    have herror := table.error?_resolveType reference
    rw [hnone, htypes] at herror
    refine ⟨?_, ?_, fun type => ?_⟩
    · rw [← Except.error?_eq_some_iff, herror, ← isSome_package?_ofHistory]
      split_ifs <;> simp_all
    · rw [← Except.error?_eq_some_iff, herror, ← isSome_package?_ofHistory,
        ← isSome_find?_ofHistory]
      split_ifs <;> simp_all
    · rw [SymbolTable.resolveType_eq_ok_iff, hnone, htypes]
      simp only [isFirst_iff, reduceCtorEq, false_and, exists_false, false_or, true_and]
      rfl

/-- A name that is registered twice, and another one without a package and under the empty one. -/
def recurring : List Message :=
  [⟨some "p", "A", { outputPackage := "x", enclosingClasses := ["", "Outer"], name := "First" }⟩,
    ⟨none, "B", { outputPackage := "", name := "B" }⟩,
    ⟨some "p", "A", { outputPackage := "y", name := "Second" }⟩,
    ⟨some "", "B", { outputPackage := "z", name := "B" }⟩]

def recurringTable : SymbolTable := { SymbolTable.empty with types := ofHistory recurring }

theorem recurring_first_wins :
    (ofHistory recurring).size = 2 ∧
    recurringTable.overrideOf ⟨"A", some "p"⟩ = none ∧
    recurringTable.resolveType ⟨"A", some "p"⟩ =
      .ok { name := "First", package := "x.Outer", enclosingClasses := ["", "Outer"] } ∧
    recurringTable.resolveType ⟨"A", none⟩ = .error (.unresolvedType ⟨"A", none⟩) ∧
    recurringTable.resolveType ⟨"A", some "q"⟩ = .error (.unresolvedPackage ⟨"A", some "q"⟩) := by
  obtain ⟨-, -, -, hsize, -, hresolve⟩ := ofHistory_first_wins recurring
  obtain ⟨-, -, hfirst⟩ := hresolve recurringTable rfl ⟨"A", some "p"⟩ rfl
  obtain ⟨-, htype, -⟩ := hresolve recurringTable rfl ⟨"A", none⟩ rfl
  obtain ⟨hpackage, -, -⟩ := hresolve recurringTable rfl ⟨"A", some "q"⟩ rfl
  have hother : ∀ message ∈ recurring, message.package.getD "" ≠ "q" := by decide
  refine ⟨hsize.trans (by decide), rfl, ?_, ?_, ?_⟩
  · exact (hfirst _).2 ⟨_, ⟨[], _, _, rfl, rfl, rfl, nofun⟩, by decide⟩
  · exact htype.2 ⟨⟨_, List.getElem_mem (by decide : 1 < recurring.length), rfl⟩, by decide⟩
  · exact hpackage.2 fun ⟨message, hmem, heq⟩ => hother message hmem heq

end TypeRegistry

end RpcCatalog
