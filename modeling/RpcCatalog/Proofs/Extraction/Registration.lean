import RpcCatalog.Proofs.Extraction.Walk
import RpcCatalog.Proofs.SymbolTable.TypeRegistry

/-!
# What a run registers

The symbol table that a run ends with, read off from its steps alone.

* `Step.register`: what a step puts into a table. The table of a run is that of its start with the
  steps put in one after another (`Workspace.Runs.table_eq`).
* `entriesUnder`: the entries that steps give for a message. The one at the start counts, and else
  the first of them (`SymbolTable.find?_types_replay`), so that the messages of a table are those at
  the start and those entered (`SymbolTable.isSome_find?_replay`).
* `servicesUnder`: the services that steps declare under a file name; the last of them is the one
  registered (`SymbolTable.find?_replay`).
-/

set_option autoImplicit false

namespace RpcCatalog

/-! ## Services -/

@[simp] theorem ServiceRegistry.find?_register (registry : ServiceRegistry) (file file' : String)
    (service : Service TypeReference) :
    (registry.register file service).find? file' =
      if file' = file then some service else registry.find? file' :=
  NameMap.find?_insert _ _ _ _

/-! ## Steps in a table -/

/-- The table after a step. -/
def Step.register (table : SymbolTable) : Step → SymbolTable
  | .entered _ scope (.message name) =>
    table.registerType scope.package name { outputPackage := scope.outputPackage, name }
  | .entered source scope (.service name items) =>
    table.registerService source.name (scope.service name items)
  | _ => table

theorem Extraction.declare_table (state : Extraction) (source : Source) (scope : FileScope)
    (declaration : Declaration) :
    (state.declare source.name scope declaration).table =
      Step.register state.table (.entered source scope declaration) := by
  cases declaration with
  | option name value =>
    unfold Extraction.declare
    dsimp only
    split <;> rfl
  | _ => rfl

namespace SymbolTable

/-- A table with steps put in one after another. -/
def replay (table : SymbolTable) (steps : List Step) : SymbolTable :=
  steps.foldl Step.register table

@[simp] theorem replay_nil (table : SymbolTable) : table.replay [] = table := rfl

@[simp] theorem replay_cons (table : SymbolTable) (step : Step) (steps : List Step) :
    table.replay (step :: steps) = (step.register table).replay steps := rfl

@[simp] theorem replay_append (table : SymbolTable) (steps steps' : List Step) :
    table.replay (steps ++ steps') = (table.replay steps).replay steps' := List.foldl_append

@[simp] theorem register_met (table : SymbolTable) (path : Path)
    (content : Option (List Declaration)) : (Step.met path content).register table = table := rfl

@[simp] theorem register_importing (table : SymbolTable) (source : Source) (scope : FileScope)
    (imported : String) :
    (Step.entered source scope (.importing imported)).register table = table := rfl

end SymbolTable

/-! ## The table of a run -/

namespace Workspace

variable {workspace : Workspace}

theorem Enters.table_eq {source : Source} {state final : Extraction} {scope : FileScope}
    {declarations : List Declaration} {steps : List Step}
    (h : workspace.Enters source state scope declarations steps final) :
    final.table = state.table.replay steps := by
  induction h with
  | nil => rfl
  | @own source state _ scope declaration _ _ _ _ ih =>
    rw [ih, state.declare_table source, SymbolTable.replay_cons]
  | passed happroach _ ih =>
    rw [ih, (approachImport_passed happroach).1]
    rfl
  | failed happroach _ ih =>
    obtain ⟨-, -, -, htable, -⟩ := approachImport_failed happroach
    rw [ih, htable]
    rfl
  | opened happroach _ _ ihwalk ihnext =>
    obtain ⟨-, -, -, htable, -⟩ := approachImport_opened happroach
    rw [ihnext, ihwalk, htable]
    simp

theorem Extracts.table_eq {state : Extraction} {path : Path} {steps : List Step}
    {outcome : Except CatalogError Unit × Extraction}
    (h : workspace.Extracts state path steps outcome) :
    outcome.2.table = state.table.replay steps := by
  cases h with
  | passed happroach => exact (approachPath_passed happroach).1
  | failed happroach =>
    obtain ⟨-, -, -, htable, -⟩ := approachPath_failed happroach
    exact htable
  | opened happroach walk =>
    obtain ⟨-, -, -, htable, -⟩ := approachPath_opened happroach
    rw [walk.table_eq, htable]
    rfl

theorem Runs.table_eq {state final : Extraction} {paths : List Path} {steps : List Step}
    (h : workspace.Runs state paths steps final) :
    final.table = state.table.replay steps := by
  induction h with
  | nil => rfl
  | cons first _ ih =>
    rw [ih, first.table_eq, SymbolTable.replay_append]
    rfl

end Workspace

/-! ## What is found in it -/

/-- The entry that a step gives for a message of a package. -/
def Step.entryUnder? (package : Option String) (name : String) : Step → Option TypeEntry
  | .entered _ scope (.message name') =>
    if scope.package.getD "" = package.getD "" ∧ name' = name then
      some { outputPackage := scope.outputPackage, name := name' }
    else none
  | _ => none

/-- The entries that steps give for a message of a package. -/
def entriesUnder (package : Option String) (name : String) (steps : List Step) : List TypeEntry :=
  steps.filterMap (Step.entryUnder? package name)

theorem mem_entriesUnder {package : Option String} {name : String} {steps : List Step}
    {entry : TypeEntry} :
    entry ∈ entriesUnder package name steps ↔
      ∃ source scope, .entered source scope (.message name) ∈ steps ∧
        scope.package.getD "" = package.getD "" ∧
          entry = { outputPackage := scope.outputPackage, name } := by
  unfold entriesUnder
  rw [List.mem_filterMap]
  constructor
  · rintro ⟨step, hstep, h⟩
    cases step with
    | met path content => cases h
    | entered source scope declaration =>
      cases declaration with
      | message name' =>
        simp only [Step.entryUnder?] at h
        split at h
        · next hkey =>
          obtain ⟨hpackage, rfl⟩ := hkey
          exact ⟨source, scope, hstep, hpackage, (Option.some.inj h).symm⟩
        · cases h
      | _ => cases h
  · rintro ⟨source, scope, hstep, hpackage, rfl⟩
    exact ⟨_, hstep, if_pos ⟨hpackage, rfl⟩⟩

theorem entriesUnder_eq_nil_iff {package : Option String} {name : String} {steps : List Step} :
    entriesUnder package name steps = [] ↔
      ¬∃ source scope, .entered source scope (.message name) ∈ steps ∧
        scope.package.getD "" = package.getD "" := by
  rw [List.eq_nil_iff_forall_not_mem, not_exists]
  simp only [mem_entriesUnder, not_exists, not_and]
  exact ⟨fun h source scope hentered hpackage => h _ source scope hentered hpackage rfl,
    fun h _ source scope hentered hpackage _ => h source scope hentered hpackage⟩

namespace SymbolTable

@[simp] theorem replay_overrides (table : SymbolTable) (steps : List Step) :
    (table.replay steps).overrides = table.overrides := by
  induction steps generalizing table with
  | nil => rfl
  | cons step steps ih =>
    rw [replay_cons, ih]
    cases step with
    | met path content => rfl
    | entered source scope declaration => cases declaration <;> rfl

/-- The entry of a message is the one at the start, or else the first that a step gives. -/
theorem find?_types_replay (table : SymbolTable) (steps : List Step) (package : Option String)
    (name : String) :
    (table.replay steps).types.find? package name =
      (table.types.find? package name).or (entriesUnder package name steps).head? := by
  induction steps generalizing table with
  | nil => exact (Option.or_none ..).symm
  | cons step steps ih =>
    have hstep : (step.register table).types.find? package name =
        (table.types.find? package name).or (step.entryUnder? package name) := by
      cases step with
      | met path content => exact (Option.or_none ..).symm
      | entered source scope declaration =>
        cases declaration with
        | message name' =>
          rw [Step.register, registerType, TypeRegistry.find?_register, Step.entryUnder?]
          split
          · cases table.types.find? package name <;> rfl
          · exact (Option.or_none ..).symm
        | _ => exact (Option.or_none ..).symm
    rw [replay_cons, ih, hstep, Option.or_assoc, entriesUnder, entriesUnder, List.filterMap_cons]
    cases step.entryUnder? package name <;> rfl

/-- The messages known after some steps are those known before and those entered. -/
theorem isSome_find?_replay (table : SymbolTable) (steps : List Step) (package : Option String)
    (name : String) :
    ((table.replay steps).types.find? package name).isSome ↔
      (table.types.find? package name).isSome ∨
        ∃ source scope, .entered source scope (.message name) ∈ steps ∧
          scope.package.getD "" = package.getD "" := by
  rw [find?_types_replay, Option.isSome_or, Bool.or_eq_true, List.isSome_head?, ne_eq,
    entriesUnder_eq_nil_iff, not_not]

/-- The packages known after some steps are those known before and those of messages entered. -/
theorem isSome_package?_replay (table : SymbolTable) (steps : List Step)
    (package : Option String) :
    ((table.replay steps).types.package? package).isSome ↔
      (table.types.package? package).isSome ∨
        ∃ name source scope, .entered source scope (.message name) ∈ steps ∧
          scope.package.getD "" = package.getD "" := by
  induction steps generalizing table with
  | nil => simp
  | cons step steps ih =>
    rw [replay_cons, ih]
    have hstep : ((step.register table).types.package? package).isSome ↔
        (table.types.package? package).isSome ∨
          ∃ name source scope, step = .entered source scope (.message name) ∧
            scope.package.getD "" = package.getD "" := by
      cases step with
      | met path content => simp
      | entered source scope declaration =>
        cases declaration with
        | message name =>
          rw [Step.register, registerType, TypeRegistry.isSome_package?_register]
          simp
        | _ => simp [Step.register, registerService]
    rw [hstep]
    simp only [List.mem_cons, or_and_right, exists_or, or_assoc, eq_comm]

end SymbolTable

/-- The service that a step declares under a file name, with the text that it is from. -/
def Step.serviceUnder? (file : String) : Step → Option (Source × Service TypeReference)
  | .entered source scope (.service name items) =>
    if source.name = file then some (source, scope.service name items) else none
  | _ => none

/-- The services that steps declare under a file name, each with the text that it is from. -/
def servicesUnder (file : String) (steps : List Step) : List (Source × Service TypeReference) :=
  steps.filterMap (Step.serviceUnder? file)

/-- The service under a file name is the last that was declared under it. -/
theorem SymbolTable.find?_replay (table : SymbolTable) (steps : List Step) (file : String) :
    (table.replay steps).services.find? file =
      ((servicesUnder file steps).getLast?.map Prod.snd).or (table.services.find? file) := by
  induction steps generalizing table with
  | nil => rfl
  | cons step steps ih =>
    have hstep : (step.register table).services.find? file =
        ((step.serviceUnder? file).map Prod.snd).or (table.services.find? file) := by
      cases step with
      | met path content => rfl
      | entered source scope declaration =>
        cases declaration with
        | service name items =>
          rw [Step.register, registerService, ServiceRegistry.find?_register, Step.serviceUnder?]
          by_cases hfile : source.name = file
          · rw [if_pos hfile, if_pos hfile.symm]
            rfl
          · rw [if_neg hfile, if_neg (Ne.symm hfile)]
            rfl
        | _ => rfl
    rw [replay_cons, ih, hstep, ← Option.or_assoc, servicesUnder, servicesUnder,
      List.filterMap_cons]
    cases step.serviceUnder? file with
    | none => simp
    | some entry =>
      rw [List.getLast?_cons]
      cases (steps.filterMap (Step.serviceUnder? file)).getLast? <;> rfl

end RpcCatalog
