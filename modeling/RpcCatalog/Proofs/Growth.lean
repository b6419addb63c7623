import Mathlib
import RpcCatalog.Proofs.Extraction.Input
import RpcCatalog.Proofs.Resolution
import RpcCatalog.Proofs.SymbolTable.PackageOverrides

/-!
# Growth of symbol tables

A symbol table only ever learns, so what is resolved once stays resolved.

* `SymbolTable.Operation`, `SymbolTable.afterAll`: what can be done to a table, one thing after
  another.
* `SymbolTable.GrowsTo`: a table knows all that an earlier one knew. Every operation lets a table
  grow (`SymbolTable.growsTo_after`), and so does a list of them.
* `SymbolTable.find?_overrides_afterAll`: the override of a package is the first one.
* `SymbolTable.resolveType_improves`: a type that is resolved stays so, and at the same place unless
  its package is overridden in between.
-/

set_option autoImplicit false

namespace RpcCatalog

/-! ## Growth -/

namespace SymbolTable

/-- A table knows the overrides, packages and messages that another one knows, and no fewer messages
and services. -/
structure GrowsTo (table later : SymbolTable) : Prop where
  overrides : ∀ package target, table.overrides.find? package = some target →
    later.overrides.find? package = some target
  packages : ∀ package, (table.types.package? package).isSome →
    (later.types.package? package).isSome
  types : ∀ package name entry, table.types.find? package name = some entry →
    later.types.find? package name = some entry
  types_size : table.types.size ≤ later.types.size
  services_size : table.services.size ≤ later.services.size

variable {table middle later : SymbolTable}

theorem GrowsTo.refl (table : SymbolTable) : table.GrowsTo table :=
  ⟨fun _ _ => id, fun _ => id, fun _ _ _ => id, Nat.le_refl _, Nat.le_refl _⟩

theorem GrowsTo.trans (h : table.GrowsTo middle) (h' : middle.GrowsTo later) :
    table.GrowsTo later where
  overrides package target hfind := h'.overrides package target (h.overrides package target hfind)
  packages package hsome := h'.packages package (h.packages package hsome)
  types package name entry hfind := h'.types package name entry (h.types package name entry hfind)
  types_size := Nat.le_trans h.types_size h'.types_size
  services_size := Nat.le_trans h.services_size h'.services_size

theorem growsTo_registerType (table : SymbolTable) (package : Option String) (name : String)
    (entry : TypeEntry) : table.GrowsTo (table.registerType package name entry) where
  overrides _ _ := id
  packages package' hsome := (table.types.isSome_package?_register _ _ _ _).2 (.inl hsome)
  types package' name' entry' hfind := by
    rw [registerType, TypeRegistry.find?_register, hfind, Option.getD_some, ite_self]
  types_size := table.types.size_le_register package name entry
  services_size := Nat.le_refl _

theorem growsTo_registerService (table : SymbolTable) (file : String)
    (service : Service TypeReference) : table.GrowsTo (table.registerService file service) where
  overrides _ _ := id
  packages _ := id
  types _ _ _ := id
  types_size := Nat.le_refl _
  services_size := table.services.services.size_le_insert file service

theorem growsTo_replay (table : SymbolTable) (steps : List Step) :
    table.GrowsTo (table.replay steps) := by
  induction steps generalizing table with
  | nil => exact .refl table
  | cons step steps ih =>
    have hstep : table.GrowsTo (step.register table) := by
      cases step with
      | met path content => exact .refl table
      | entered source scope declaration =>
        cases declaration with
        | message name => exact table.growsTo_registerType _ _ _
        | service name items => exact table.growsTo_registerService _ _
        | _ => exact .refl table
    exact hstep.trans (ih _)

/-! ## Operations -/

/-- What can be done to a symbol table. -/
inductive Operation where
  | override (package target : String)
  | type (package : Option String) (name : String) (entry : TypeEntry)
  | service (file : String) (service : Service TypeReference)
  /-- A file or a text is extracted into the table, in a run that may be under way. -/
  | extract (workspace : Workspace) (extraction : Extraction) (input : Input)

/-- The table after an operation, successful or not. -/
def after (table : SymbolTable) : Operation → SymbolTable
  | .override package target => (table.override package target).2
  | .type package name entry => table.registerType package name entry
  | .service file service => table.registerService file service
  | .extract workspace extraction input =>
    (workspace.extract { extraction with table } input).2.table

/-- The table after operations, one after another. -/
def afterAll (table : SymbolTable) (operations : List Operation) : SymbolTable :=
  operations.foldl after table

def Operation.target? (package : String) : Operation → Option String
  | .override package' target => if package' = package then some target else none
  | _ => none

theorem Operation.target?_eq_some {operation : Operation} {package target : String}
    (h : operation.target? package = some target) : operation = .override package target := by
  cases operation with
  | override package' target' =>
    rw [target?] at h
    split at h
    · next hpackage => rw [hpackage, Option.some.inj h]
    · cases h
  | _ => cases h

theorem exists_after_extract (table : SymbolTable) (workspace : Workspace) (extraction : Extraction)
    (input : Input) : ∃ steps, table.after (.extract workspace extraction input) =
      table.replay steps := by
  obtain ⟨steps, hsteps⟩ := workspace.exists_calls { extraction with table } input
  exact ⟨steps, hsteps.table_eq⟩

theorem override_cases (table : SymbolTable) (package target : String) :
    (∃ existing, table.overrides.find? package = some existing ∧
      (table.override package target).2 = table) ∨
    table.overrides.find? package = none ∧
      (table.override package target).2 =
        { table with overrides := ⟨table.overrides.targets.insert package target⟩ } := by
  unfold override
  obtain ⟨hfind, hregister⟩ | ⟨existing, hfind, -, hregister⟩ | ⟨hfind, hregister⟩ :=
    table.overrides.register_cases package target
  · rw [hregister]
    exact .inl ⟨target, hfind, rfl⟩
  · rw [hregister]
    exact .inl ⟨existing, hfind, rfl⟩
  · rw [hregister]
    exact .inr ⟨hfind, rfl⟩

theorem find?_overrides_after (table : SymbolTable) (operation : Operation) (package : String) :
    (table.after operation).overrides.find? package =
      (table.overrides.find? package).or (operation.target? package) := by
  cases operation with
  | override package' target =>
    rw [after, Operation.target?]
    obtain ⟨existing, hfind, heq⟩ | ⟨hnone, heq⟩ := table.override_cases package' target
    · rw [heq]
      split
      · next hpackage => rw [← hpackage, hfind, Option.some_or]
      · rw [Option.or_none]
    · rw [heq, PackageOverrides.find?, NameMap.find?_insert]
      split
      · next hpackage => rw [hpackage, hnone, if_pos rfl, Option.none_or]
      · next hpackage =>
        rw [if_neg (Ne.symm hpackage), Option.or_none]
        rfl
  | extract workspace extraction input =>
    obtain ⟨steps, heq⟩ := table.exists_after_extract workspace extraction input
    rw [heq, replay_overrides]
    exact (Option.or_none ..).symm
  | _ => exact (Option.or_none ..).symm

theorem growsTo_after (table : SymbolTable) (operation : Operation) :
    table.GrowsTo (table.after operation) := by
  cases operation with
  | override package target =>
    rw [after]
    obtain ⟨existing, -, heq⟩ | ⟨hnone, heq⟩ := table.override_cases package target
    · rw [heq]
      exact .refl table
    · rw [heq]
      refine ⟨fun package' target' hfind => ?_, fun _ => id, fun _ _ _ => id, Nat.le_refl _,
        Nat.le_refl _⟩
      have hne : package' ≠ package := fun e => by
        rw [e, hnone] at hfind
        cases hfind
      rw [PackageOverrides.find?, NameMap.find?_insert, if_neg hne]
      exact hfind
  | type package name entry => exact table.growsTo_registerType package name entry
  | service file service => exact table.growsTo_registerService file service
  | extract workspace extraction input =>
    obtain ⟨steps, heq⟩ := table.exists_after_extract workspace extraction input
    rw [heq]
    exact table.growsTo_replay steps

theorem growsTo_afterAll (table : SymbolTable) (operations : List Operation) :
    table.GrowsTo (table.afterAll operations) := by
  induction operations generalizing table with
  | nil => exact .refl table
  | cons operation operations ih => exact (table.growsTo_after operation).trans (ih _)

/-! ## Overrides -/

/-- The override of a package is the one at the start, or else the first that is asked for. -/
theorem find?_overrides_afterAll (table : SymbolTable) (operations : List Operation)
    (package : String) :
    (table.afterAll operations).overrides.find? package =
      (table.overrides.find? package).or (operations.findSome? (·.target? package)) := by
  induction operations generalizing table with
  | nil => exact (Option.or_none ..).symm
  | cons operation operations ih =>
    rw [afterAll, List.foldl_cons, ← afterAll, ih, find?_overrides_after, Option.or_assoc,
      List.findSome?_cons]
    cases operation.target? package <;> rfl

/-- Among some operations is an override of a package that has none until then. -/
def NewlyOverrides (table : SymbolTable) (operations : List Operation)
    (package target : String) : Prop :=
  ∃ front back, operations = front ++ .override package target :: back ∧
    (table.afterAll front).overrides.find? package = none

theorem newlyOverrides_iff {operations : List Operation} {package target : String} :
    table.NewlyOverrides operations package target ↔
      table.overrides.find? package = none ∧
        (table.afterAll operations).overrides.find? package = some target := by
  constructor
  · rintro ⟨front, back, rfl, hfront⟩
    rw [find?_overrides_afterAll, Option.or_eq_none_iff] at hfront
    obtain ⟨hnone, hfront⟩ := hfront
    refine ⟨hnone, ?_⟩
    rw [find?_overrides_afterAll, hnone, Option.none_or, List.findSome?_append, hfront,
      Option.none_or, List.findSome?_cons, Operation.target?, if_pos rfl]
  · rintro ⟨hnone, hsome⟩
    rw [find?_overrides_afterAll, hnone, Option.none_or] at hsome
    obtain ⟨front, operation, back, rfl, htarget, hfront⟩ := List.findSome?_eq_some_iff.1 hsome
    obtain rfl := Operation.target?_eq_some htarget
    refine ⟨front, back, rfl, ?_⟩
    rw [find?_overrides_afterAll, hnone, Option.none_or]
    exact List.findSome?_eq_none_iff.2 hfront

/-! ## Resolution -/

theorem GrowsTo.resolveType_eq_ok (h : table.GrowsTo later) {reference : TypeReference}
    {type : ResolvedType} (hok : table.resolveType reference = .ok type)
    (hoverride : table.overrideOf reference = none → later.overrideOf reference = none) :
    later.resolveType reference = .ok type := by
  rw [resolveType_eq_ok_iff] at hok ⊢
  obtain ⟨target, htarget, rfl⟩ | ⟨hnone, entry, hentry, rfl⟩ := hok
  · obtain ⟨package, hpackage, hfind⟩ := Option.bind_eq_some_iff.1 htarget
    refine .inl ⟨target, ?_, rfl⟩
    rw [overrideOf, hpackage, Option.bind_some, h.overrides package target hfind]
  · exact .inr ⟨hoverride hnone, entry, h.types _ _ entry hentry, rfl⟩

theorem NewlyOverrides.resolveType_eq {operations : List Operation} {package target : String}
    (h : table.NewlyOverrides operations package target) {reference : TypeReference}
    (hpackage : reference.package = some package) :
    (table.afterAll operations).resolveType reference =
      .ok { name := reference.name, package := target } := by
  refine resolveType_eq_ok_iff.2 (.inl ⟨target, ?_, rfl⟩)
  rw [overrideOf, hpackage, Option.bind_some, (newlyOverrides_iff.1 h).2]

theorem GrowsTo.resolveType_ne_unresolvedPackage (h : table.GrowsTo later)
    {reference : TypeReference}
    (hunresolved : table.resolveType reference = .error (.unresolvedType reference)) :
    later.resolveType reference ≠ .error (.unresolvedPackage reference) := by
  intro hlater
  have herror := congrArg Except.error? hunresolved
  have herror' := congrArg Except.error? hlater
  rw [error?_resolveType] at herror herror'
  by_cases hsome : (table.types.package? reference.package).isSome
  · rw [if_pos (h.packages _ hsome)] at herror'
    split at herror'
    · cases herror'
    · split at herror' <;> cases herror'
  · rw [if_neg hsome] at herror
    split at herror <;> cases herror

/-- Whatever is done to a table, a type that is resolved stays resolved. It keeps its place unless
the package of the reference is newly overridden in between; then its place is the one of the
override ever after. A package that is known stays known, and messages and services become no
fewer. -/
theorem resolveType_improves (table : SymbolTable) (operations : List Operation)
    (reference : TypeReference) :
    (∀ type, table.resolveType reference = .ok type →
      (table.afterAll operations).resolveType reference = .ok type ∨
      ∃ package target, reference.package = some package ∧
        table.NewlyOverrides operations package target ∧
          (table.afterAll operations).resolveType reference =
            .ok { name := reference.name, package := target }) ∧
    (∀ package target, reference.package = some package →
      table.NewlyOverrides operations package target →
        (table.afterAll operations).resolveType reference =
          .ok { name := reference.name, package := target }) ∧
    (table.resolveType reference = .error (.unresolvedType reference) →
      (table.afterAll operations).resolveType reference ≠
        .error (.unresolvedPackage reference)) ∧
    table.types.size ≤ (table.afterAll operations).types.size ∧
    table.services.size ≤ (table.afterAll operations).services.size := by
  have hgrows := table.growsTo_afterAll operations
  refine ⟨fun type hok => ?_, fun package target hpackage h => h.resolveType_eq hpackage,
    hgrows.resolveType_ne_unresolvedPackage, hgrows.types_size, hgrows.services_size⟩
  by_cases hoverride : table.overrideOf reference = none →
      (table.afterAll operations).overrideOf reference = none
  · exact .inl (hgrows.resolveType_eq_ok hok hoverride)
  · obtain ⟨hnone, hsome⟩ := Classical.not_imp.1 hoverride
    obtain ⟨target, htarget⟩ := Option.ne_none_iff_exists'.1 hsome
    obtain ⟨package, hpackage, hfind⟩ := Option.bind_eq_some_iff.1 htarget
    rw [overrideOf, hpackage, Option.bind_some] at hnone
    have hnew := newlyOverrides_iff.2 ⟨hnone, hfind⟩
    exact .inr ⟨package, target, hpackage, hnew, hnew.resolveType_eq hpackage⟩

/-- A table that knows one message. -/
def acquainted : SymbolTable :=
  empty.registerType (some "p") "A" { outputPackage := "p", name := "A" }

/-- Its package gets another message, and two overrides of which the second fails. -/
def encounters : List Operation :=
  [.extract { files := ⟨[], []⟩, location := fun _ => none } { table := .empty }
      (.text "b.proto" "package p; message B \x7b\x7d"),
    .override "p" "j", .override "p" "k"]

theorem acquainted_improves :
    acquainted.resolveType ⟨"A", some "p"⟩ = .ok { name := "A", package := "p" } ∧
    acquainted.NewlyOverrides encounters "p" "j" ∧
    (acquainted.afterAll encounters).resolveType ⟨"A", some "p"⟩ =
      .ok { name := "A", package := "j" } ∧
    acquainted.resolveType ⟨"B", some "p"⟩ = .error (.unresolvedType ⟨"B", some "p"⟩) ∧
    (acquainted.afterAll encounters).resolveType ⟨"B", some "p"⟩ ≠
      .error (.unresolvedPackage ⟨"B", some "p"⟩) := by
  have hnew : acquainted.NewlyOverrides encounters "p" "j" :=
    ⟨encounters.take 1, [.override "p" "k"], rfl, by cbv⟩
  have hunresolved : acquainted.resolveType ⟨"B", some "p"⟩ =
      .error (.unresolvedType ⟨"B", some "p"⟩) := by
    cbv
  obtain ⟨-, hoverride, -, -, -⟩ := resolveType_improves acquainted encounters ⟨"A", some "p"⟩
  obtain ⟨-, -, hpackage, -, -⟩ := resolveType_improves acquainted encounters ⟨"B", some "p"⟩
  exact ⟨by cbv, hnew, hoverride "p" "j" rfl hnew, hunresolved, hpackage hunresolved⟩

end SymbolTable

end RpcCatalog
