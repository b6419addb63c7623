import RpcCatalog.Catalog
import RpcCatalog.Proofs.FileSystem.Identity

/-!
# The course of a run

What a run over files does, step by step, told without any bound on the depth of imports.

* `Step`: a file is met, or a declaration of a text is entered.
* `Workspace.Enters`: the declarations of a text are entered one after another, and each import that
  leads to a new file is followed to its end before the next declaration. `Workspace.Extracts` is
  one call on a file, `Workspace.Runs` a list of calls that all succeed.
* `Workspace.extractEach`: calls on files whatever their outcomes, one after another.
* `Workspace.ApproachesImport`, `Workspace.ApproachesPath`: what an import and a call on a file come
  to before any declaration is entered, case by case. What holds of them is read off these cases.
* Every call has exactly one course (`Workspace.exists_extracts`, `Workspace.Extracts.unique`): runs
  end, since a file that is entered was not met before and a tree has finitely many files.
-/

set_option autoImplicit false

namespace RpcCatalog

/-! ## Steps -/

/-- A text whose declarations are entered. -/
structure Source where
  /-- The name that its services are registered under. -/
  name : String
  /-- The path that led to it, if it is a file. -/
  path : Option Path := none
  deriving DecidableEq

/-- The file that a path leads to. -/
def Source.ofPath (path : Path) : Source := ⟨path.baseName, some path⟩

/-- What a run does, as far as files and declarations are concerned. -/
inductive Step where
  /-- A file is met for the first time; its declarations follow, if it is readable and well
  formed. -/
  | met (path : Path) (content : Option (List Declaration))
  | entered (source : Source) (scope : FileScope) (declaration : Declaration)

/-- What a file at a path declares, if it is readable and well formed. -/
def FileSystem.declarationsAt (files : FileSystem) (path : Path) : Option (List Declaration) :=
  match files.readText path with
  | .error _ => none
  | .ok text => (parseDeclarations text).toOption

theorem FileSystem.declarationsAt_of_unreadable {files : FileSystem} {path : Path} {e : FileError}
    (h : files.readText path = .error e) : files.declarationsAt path = none := by
  rw [declarationsAt, h]

theorem FileSystem.declarationsAt_of_readText {files : FileSystem} {path : Path} {text : String}
    (h : files.readText path = .ok text) :
    files.declarationsAt path = (parseDeclarations text).toOption := by
  rw [declarationsAt, h]

theorem FileSystem.parse_of_declarationsAt {files : FileSystem} {path : Path}
    {declarations : List Declaration} (h : files.declarationsAt path = some declarations) :
    ∃ text, files.readText path = .ok text ∧ parseDeclarations text = .ok declarations := by
  unfold declarationsAt at h
  split at h
  · cases h
  · next text htext =>
    cases hparse : parseDeclarations text with
    | error e =>
      rw [hparse] at h
      cases h
    | ok declarations' =>
      rw [hparse] at h
      cases h
      exact ⟨text, htext, hparse⟩

theorem FileSystem.readable_of_declarationsAt {files : FileSystem} {path : Path}
    {declarations : List Declaration} (h : files.declarationsAt path = some declarations) :
    ∃ text, files.readText path = .ok text := by
  obtain ⟨text, htext, -⟩ := parse_of_declarationsAt h
  exact ⟨text, htext⟩

theorem FileSystem.declarationsAt_unique {files : FileSystem} {path path' : Path}
    {declarations declarations' : List Declaration}
    (same : files.identity path = files.identity path')
    (h : files.declarationsAt path = some declarations)
    (h' : files.declarationsAt path' = some declarations') : declarations = declarations' := by
  unfold declarationsAt at h h'
  split at h
  · cases h
  · next text htext =>
    split at h'
    · cases h'
    · next text' htext' =>
      rw [files.readText_unique same htext htext', h'] at h
      exact (Option.some.inj h).symm

theorem FileSystem.declarationsAt_of_isFile {files : FileSystem} {path path' : Path}
    {declarations : List Declaration} (same : files.identity path = files.identity path')
    (h : files.declarationsAt path = some declarations) (hfile : files.isFile path') :
    files.declarationsAt path' = some declarations := by
  obtain ⟨text, htext⟩ := readable_of_declarationsAt h
  rw [declarationsAt_of_readText htext] at h
  rw [declarationsAt_of_readText (readText_of_isFile same htext hfile), h]

theorem Extraction.enter_of_ne_importing {follow : Extraction → String → Extraction}
    {file : String} {state : Extraction} {scope : FileScope} {declaration : Declaration}
    (h : ∀ path, declaration ≠ .importing path) :
    Extraction.enter follow file (state, scope) declaration =
      (state.declare file scope declaration, scope.after declaration) := by
  cases declaration with
  | importing path => exact absurd rfl (h path)
  | _ => rfl

/-- What a declaration adds by itself shows in the table and in the reports alone. -/
theorem Extraction.exists_declare_eq (state : Extraction) (file : String) (scope : FileScope)
    (declaration : Declaration) :
    ∃ table events, state.declare file scope declaration = { state with table, events } := by
  cases declaration with
  | option name value =>
    unfold Extraction.declare
    dsimp only
    split <;> exact ⟨_, _, rfl⟩
  | _ => exact ⟨_, _, rfl⟩

@[simp] theorem Extraction.declare_processed (state : Extraction) (file : String)
    (scope : FileScope) (declaration : Declaration) :
    (state.declare file scope declaration).processed = state.processed := by
  obtain ⟨_, _, h⟩ := state.exists_declare_eq file scope declaration
  rw [h]

@[simp] theorem Extraction.declare_malformedImports (state : Extraction) (file : String)
    (scope : FileScope) (declaration : Declaration) :
    (state.declare file scope declaration).malformedImports = state.malformedImports := by
  obtain ⟨_, _, h⟩ := state.exists_declare_eq file scope declaration
  rw [h]

@[simp] theorem Extraction.declare_lookups (state : Extraction) (file : String)
    (scope : FileScope) (declaration : Declaration) :
    (state.declare file scope declaration).lookups = state.lookups := by
  obtain ⟨_, _, h⟩ := state.exists_declare_eq file scope declaration
  rw [h]

namespace Workspace

/-! ## Courses -/

/-- The import is followed, and leads to a location. -/
def LeadsTo (workspace : Workspace) (imported : String) (location : Path) : Prop :=
  Path.impliedPackage imported ≠ some wellKnownPackage ∧
    workspace.location imported = some location

theorem LeadsTo.unique {workspace : Workspace} {imported : String} {location location' : Path}
    (h : workspace.LeadsTo imported location) (h' : workspace.LeadsTo imported location') :
    location = location' :=
  Option.some.inj (h.2.symm.trans h'.2)

/-- Entering declarations of a text, from a state and from what the declarations before say, takes
steps and ends in a state. -/
inductive Enters (workspace : Workspace) :
    Source → Extraction → FileScope → List Declaration → List Step → Extraction → Prop where
  | nil {source : Source} {state : Extraction} {scope : FileScope} :
    Enters workspace source state scope [] [] state
  | own {source : Source} {state final : Extraction} {scope : FileScope}
    {declaration : Declaration} {rest : List Declaration} {steps : List Step}
    (h : ∀ path, declaration ≠ .importing path)
    (next : Enters workspace source (state.declare source.name scope declaration)
      (scope.after declaration) rest steps final) :
    Enters workspace source state scope (declaration :: rest)
      (.entered source scope declaration :: steps) final
  | passed {source : Source} {state state' final : Extraction} {scope : FileScope}
    {imported : String} {rest : List Declaration} {steps : List Step}
    (h : workspace.approachImport state imported = .passed state')
    (next : Enters workspace source state' scope rest steps final) :
    Enters workspace source state scope (.importing imported :: rest)
      (.entered source scope (.importing imported) :: steps) final
  | failed {source : Source} {state state' final : Extraction} {scope : FileScope}
    {imported : String} {location : Path} {rest : List Declaration} {steps : List Step}
    (h : workspace.approachImport state imported = .failed state' location)
    (next : Enters workspace source state' scope rest steps final) :
    Enters workspace source state scope (.importing imported :: rest)
      (.entered source scope (.importing imported) :: .met location none :: steps) final
  | opened {source : Source} {state state' middle final : Extraction} {scope : FileScope}
    {imported : String} {location : Path} {declarations rest : List Declaration}
    {inner steps : List Step}
    (h : workspace.approachImport state imported = .opened state' location declarations)
    (walk : Enters workspace (.ofPath location) state' {} declarations inner middle)
    (next : Enters workspace source middle scope rest steps final) :
    Enters workspace source state scope (.importing imported :: rest)
      (.entered source scope (.importing imported) :: .met location (some declarations) ::
        (inner ++ steps)) final

/-- Extracting a file takes steps and has an outcome. -/
inductive Extracts (workspace : Workspace) (state : Extraction) (path : Path) :
    List Step → Except CatalogError Unit × Extraction → Prop where
  | passed {outcome : Except CatalogError Unit × Extraction}
    (h : workspace.approachPath state path = .passed outcome) :
    Extracts workspace state path [] outcome
  | failed {outcome : Except CatalogError Unit × Extraction} {location : Path}
    (h : workspace.approachPath state path = .failed outcome location) :
    Extracts workspace state path [.met location none] outcome
  | opened {state' final : Extraction} {location : Path} {declarations : List Declaration}
    {steps : List Step}
    (h : workspace.approachPath state path = .opened state' location declarations)
    (walk : Enters workspace (.ofPath location) state' {} declarations steps final) :
    Extracts workspace state path (.met location (some declarations) :: steps) (.ok (), final)

/-- Extracting files one after another succeeds for each, takes steps and ends in a state. Reports
may be made in front of each file. -/
inductive Runs (workspace : Workspace) :
    Extraction → List Path → List Step → Extraction → Prop where
  | nil {state : Extraction} : Runs workspace state [] [] state
  | cons {state middle final : Extraction} {events : List Event} {path : Path}
    {paths : List Path} {inner steps : List Step}
    (first : workspace.Extracts (state.report events) path inner (.ok (), middle))
    (next : Runs workspace middle paths steps final) :
    Runs workspace state (path :: paths) (inner ++ steps) final

/-! ## What an approach does -/

variable {workspace : Workspace}

/-- The state once an import was followed to a file that was not met before. -/
def followed (workspace : Workspace) (state : Extraction) (imported : String) (location : Path) :
    Extraction :=
  ((state.lookedUp imported (some location)).meet (workspace.files.identity location)).report
    [.importFollowed imported location]

/-- What an import comes to up to the declarations of the file it names, and when. -/
inductive ApproachesImport (workspace : Workspace) (state : Extraction) (imported : String) :
    Approach Extraction → Prop where
  | wellKnown (h : Path.impliedPackage imported = some wellKnownPackage) :
    ApproachesImport workspace state imported (.passed (state.report [.wellKnownSkipped imported]))
  | notFound (h : Path.impliedPackage imported ≠ some wellKnownPackage)
    (hnone : workspace.location imported = none) :
    ApproachesImport workspace state imported
      (.passed ((state.lookedUp imported none).report [.importNotFound imported]))
  | known {location : Path} (hleads : workspace.LeadsTo imported location)
    (hmet : workspace.files.identity location ∈ state.processed) :
    ApproachesImport workspace state imported
      (.passed ((state.lookedUp imported (some location)).report [.importKnown imported]))
  | unreadable {location : Path} {e : FileError} (hleads : workspace.LeadsTo imported location)
    (hnew : workspace.files.identity location ∉ state.processed)
    (hread : workspace.files.readText location = .error e) :
    ApproachesImport workspace state imported
      (.failed ((workspace.followed state imported location).report
        [.importFailed imported (.unreadable e)]) location)
  | malformed {location : Path} {text : String} {e : SyntaxError}
    (hleads : workspace.LeadsTo imported location)
    (hnew : workspace.files.identity location ∉ state.processed)
    (hread : workspace.files.readText location = .ok text)
    (hparse : parseDeclarations text = .error e) :
    ApproachesImport workspace state imported
      (.failed (((workspace.followed state imported location).report
        [.importFailed imported (.malformed (Path.baseName location) e)]).setAside
          (workspace.files.identity location) ⟨Path.baseName location, e⟩) location)
  | opened {location : Path} {text : String} {declarations : List Declaration}
    (hleads : workspace.LeadsTo imported location)
    (hnew : workspace.files.identity location ∉ state.processed)
    (hread : workspace.files.readText location = .ok text)
    (hparse : parseDeclarations text = .ok declarations) :
    ApproachesImport workspace state imported
      (.opened (workspace.followed state imported location) location declarations)

theorem approachesImport (workspace : Workspace) (state : Extraction) (imported : String) :
    workspace.ApproachesImport state imported (workspace.approachImport state imported) := by
  rw [approachImport, Bool.cond_decide]
  split
  · next hknown => exact .wellKnown hknown
  · next hknown =>
    split
    · next hnone => exact .notFound hknown hnone
    · next location hlocation =>
      have hleads : workspace.LeadsTo imported location := ⟨hknown, hlocation⟩
      dsimp only
      split
      · next hmet => exact .known hleads hmet
      · next hnew =>
        split
        · next e hread => exact .unreadable hleads hnew hread
        · next text hread =>
          split
          · next e hparse => exact .malformed hleads hnew hread hparse
          · next declarations hparse => exact .opened hleads hnew hread hparse

theorem approachImport_passed {state state' : Extraction} {imported : String}
    (h : workspace.approachImport state imported = .passed state') :
    state'.table = state.table ∧ state'.processed = state.processed ∧
      state'.malformedImports = state.malformedImports ∧
      ∀ location, workspace.LeadsTo imported location →
        workspace.files.identity location ∈ state.processed := by
  have hcase := workspace.approachesImport state imported
  rw [h] at hcase
  cases hcase with
  | wellKnown hknown => exact ⟨rfl, rfl, rfl, fun _ hleads => absurd hknown hleads.1⟩
  | notFound _ hnone =>
    refine ⟨rfl, rfl, rfl, fun location hleads => ?_⟩
    cases hnone.symm.trans hleads.2
  | known hleads hmet =>
    refine ⟨rfl, rfl, rfl, fun location hleads' => ?_⟩
    obtain rfl := hleads.unique hleads'
    exact hmet

theorem approachImport_failed {state state' : Extraction} {imported : String} {location : Path}
    (h : workspace.approachImport state imported = .failed state' location) :
    workspace.LeadsTo imported location ∧
      workspace.files.identity location ∉ state.processed ∧
      workspace.files.declarationsAt location = none ∧ state'.table = state.table ∧
      state'.processed = workspace.files.identity location :: state.processed ∧
      ∀ entry ∈ state'.malformedImports,
        entry ∈ state.malformedImports ∨ entry.1 = workspace.files.identity location := by
  have hcase := workspace.approachesImport state imported
  rw [h] at hcase
  cases hcase with
  | unreadable hleads hnew hread =>
    exact ⟨hleads, hnew, FileSystem.declarationsAt_of_unreadable hread, rfl, rfl,
      fun _ hentry => .inl hentry⟩
  | malformed hleads hnew hread hparse =>
    refine ⟨hleads, hnew, ?_, rfl, rfl, fun entry hentry => ?_⟩
    · rw [FileSystem.declarationsAt_of_readText hread, hparse]
      rfl
    · exact (List.mem_cons.1 hentry).symm.imp_right fun e => by rw [e]

theorem approachImport_opened {state state' : Extraction} {imported : String} {location : Path}
    {declarations : List Declaration}
    (h : workspace.approachImport state imported = .opened state' location declarations) :
    workspace.LeadsTo imported location ∧
      workspace.files.identity location ∉ state.processed ∧
      workspace.files.declarationsAt location = some declarations ∧ state'.table = state.table ∧
      state'.processed = workspace.files.identity location :: state.processed ∧
      state'.malformedImports = state.malformedImports := by
  have hcase := workspace.approachesImport state imported
  rw [h] at hcase
  cases hcase with
  | opened hleads hnew hread hparse =>
    refine ⟨hleads, hnew, ?_, rfl, rfl, rfl⟩
    rw [FileSystem.declarationsAt_of_readText hread, hparse]
    rfl

@[simp] theorem refuse_table (state : Extraction) (malformed : MalformedFile) :
    (workspace.refuse state malformed).2.table = state.table := by
  unfold refuse
  split <;> rfl

@[simp] theorem refuse_processed (state : Extraction) (malformed : MalformedFile) :
    (workspace.refuse state malformed).2.processed = state.processed := by
  unfold refuse
  split <;> rfl

@[simp] theorem refuse_malformedImports (state : Extraction) (malformed : MalformedFile) :
    (workspace.refuse state malformed).2.malformedImports = state.malformedImports := by
  unfold refuse
  split <;> rfl

/-- What a call on a file comes to up to its declarations, and when. -/
inductive ApproachesPath (workspace : Workspace) (state : Extraction) (path : Path) :
    Approach (Except CatalogError Unit × Extraction) → Prop where
  | setAside {malformed : MalformedFile}
    (h : state.malformedImports.lookup (workspace.files.identity path) = some malformed) :
    ApproachesPath workspace state path (.passed (workspace.refuse
      { state with malformedImports :=
          state.malformedImports.filter (·.1 ≠ workspace.files.identity path) } malformed))
  | known (hnone : state.malformedImports.lookup (workspace.files.identity path) = none)
    (hmet : workspace.files.identity path ∈ state.processed) :
    ApproachesPath workspace state path (.passed (.ok (), state.report [.fileKnown path]))
  | unreadable {e : FileError}
    (hnone : state.malformedImports.lookup (workspace.files.identity path) = none)
    (hnew : workspace.files.identity path ∉ state.processed)
    (hread : workspace.files.readText path = .error e) :
    ApproachesPath workspace state path
      (.failed (.error (.unreadable e), state.meet (workspace.files.identity path)) path)
  | malformed {text : String} {e : SyntaxError}
    (hnone : state.malformedImports.lookup (workspace.files.identity path) = none)
    (hnew : workspace.files.identity path ∉ state.processed)
    (hread : workspace.files.readText path = .ok text)
    (hparse : parseDeclarations text = .error e) :
    ApproachesPath workspace state path
      (.failed (workspace.refuse (state.meet (workspace.files.identity path))
        ⟨path.baseName, e⟩) path)
  | opened {text : String} {declarations : List Declaration}
    (hnone : state.malformedImports.lookup (workspace.files.identity path) = none)
    (hnew : workspace.files.identity path ∉ state.processed)
    (hread : workspace.files.readText path = .ok text)
    (hparse : parseDeclarations text = .ok declarations) :
    ApproachesPath workspace state path
      (.opened (state.meet (workspace.files.identity path)) path declarations)

theorem approachesPath (workspace : Workspace) (state : Extraction) (path : Path) :
    workspace.ApproachesPath state path (workspace.approachPath state path) := by
  unfold approachPath
  dsimp only
  split
  · next malformed hlookup => exact .setAside hlookup
  · next hnone =>
    split
    · next hmet => exact .known hnone hmet
    · next hnew =>
      split
      · next e hread => exact .unreadable hnone hnew hread
      · next text hread =>
        split
        · next e hparse => exact .malformed hnone hnew hread hparse
        · next declarations hparse => exact .opened hnone hnew hread hparse

theorem approachPath_passed {state : Extraction} {path : Path}
    {outcome : Except CatalogError Unit × Extraction}
    (h : workspace.approachPath state path = .passed outcome) :
    outcome.2.table = state.table ∧ outcome.2.processed = state.processed ∧
      (∀ entry ∈ outcome.2.malformedImports, entry ∈ state.malformedImports) ∧
      (workspace.files.identity path ∈ state.processed ∨
        (state.malformedImports.lookup (workspace.files.identity path)).isSome) := by
  have hcase := workspace.approachesPath state path
  rw [h] at hcase
  cases hcase with
  | setAside hlookup =>
    refine ⟨by simp, by simp, fun entry hentry => ?_, .inr (by rw [hlookup]; rfl)⟩
    rw [refuse_malformedImports] at hentry
    exact (List.mem_filter.1 hentry).1
  | known _ hmet => exact ⟨rfl, rfl, fun entry hentry => hentry, .inl hmet⟩

/-- A file fails when it is met for the first time and has no declarations. The call succeeds all
the same only if the file can be read. -/
theorem approachPath_failed {state : Extraction} {path location : Path}
    {outcome : Except CatalogError Unit × Extraction}
    (h : workspace.approachPath state path = .failed outcome location) :
    location = path ∧ workspace.files.identity path ∉ state.processed ∧
      workspace.files.declarationsAt path = none ∧ outcome.2.table = state.table ∧
      outcome.2.processed = workspace.files.identity path :: state.processed ∧
      outcome.2.malformedImports = state.malformedImports ∧
      (outcome.1 = .ok () → ∃ text, workspace.files.readText path = .ok text) := by
  have hcase := workspace.approachesPath state path
  rw [h] at hcase
  cases hcase with
  | unreadable _ hnew hread =>
    exact ⟨rfl, hnew, FileSystem.declarationsAt_of_unreadable hread, rfl, rfl, rfl, nofun⟩
  | malformed _ hnew hread hparse =>
    refine ⟨rfl, hnew, ?_, by simp [Extraction.meet], by simp [Extraction.meet],
      by simp [Extraction.meet], fun _ => ⟨_, hread⟩⟩
    rw [FileSystem.declarationsAt_of_readText hread, hparse]
    rfl

theorem approachPath_opened {state state' : Extraction} {path location : Path}
    {declarations : List Declaration}
    (h : workspace.approachPath state path = .opened state' location declarations) :
    location = path ∧ workspace.files.identity path ∉ state.processed ∧
      workspace.files.declarationsAt path = some declarations ∧ state'.table = state.table ∧
      state'.processed = workspace.files.identity path :: state.processed ∧
      state'.malformedImports = state.malformedImports := by
  have hcase := workspace.approachesPath state path
  rw [h] at hcase
  cases hcase with
  | opened _ hnew hread hparse =>
    refine ⟨rfl, hnew, ?_, rfl, rfl, rfl⟩
    rw [FileSystem.declarationsAt_of_readText hread, hparse]
    rfl

/-! ## Every call has a course -/

theorem Enters.processed_subset {source : Source} {state final : Extraction} {scope : FileScope}
    {declarations : List Declaration} {steps : List Step}
    (h : workspace.Enters source state scope declarations steps final) :
    state.processed ⊆ final.processed := by
  induction h with
  | nil => exact List.Subset.refl _
  | own _ _ ih => simpa using ih
  | passed h _ ih =>
    rw [(approachImport_passed h).2.1] at ih
    exact ih
  | failed h _ ih =>
    obtain ⟨-, -, -, -, hprocessed, -⟩ := approachImport_failed h
    rw [hprocessed] at ih
    exact List.Subset.trans (List.subset_cons_self ..) ih
  | opened h _ _ ihwalk ihnext =>
    obtain ⟨-, -, -, -, hprocessed, -⟩ := approachImport_opened h
    rw [hprocessed] at ihwalk
    exact List.Subset.trans (List.subset_cons_self ..) (List.Subset.trans ihwalk ihnext)

/-- The number of files that a run has still to meet. -/
def unmet (workspace : Workspace) (state : Extraction) : Nat :=
  workspace.files.fileIdentities.countP fun identity => !state.processed.contains identity

theorem unmet_le_fileCount (state : Extraction) :
    workspace.unmet state ≤ workspace.files.fileCount := by
  rw [← FileSystem.length_fileIdentities]
  exact List.countP_le_length

theorem unmet_le_of_subset {state state' : Extraction}
    (h : state.processed ⊆ state'.processed) : workspace.unmet state' ≤ workspace.unmet state := by
  refine List.countP_mono_left fun identity _ hid => ?_
  simp only [Bool.not_eq_eq_eq_not, Bool.not_true, List.contains_eq_mem, decide_eq_false_iff_not]
    at hid ⊢
  exact fun hmem => hid (h hmem)

/-- Meeting a file that can be read leaves fewer to meet. -/
theorem unmet_lt_of_met {state state' : Extraction} {path : Path}
    {declarations : List Declaration} (new : workspace.files.identity path ∉ state.processed)
    (h : workspace.files.declarationsAt path = some declarations)
    (hprocessed : state'.processed = workspace.files.identity path :: state.processed) :
    workspace.unmet state' < workspace.unmet state := by
  have hfile : workspace.files.identity path ∈ workspace.files.fileIdentities := by
    obtain ⟨text, htext⟩ := FileSystem.readable_of_declarationsAt h
    exact FileSystem.identity_mem_of_readText htext
  have hsplit : workspace.files.fileIdentities.filter (fun id => !state'.processed.contains id) =
      (workspace.files.fileIdentities.filter fun id => !state.processed.contains id).filter
        fun id => !(id == workspace.files.identity path) := by
    rw [List.filter_filter]
    refine List.filter_congr fun identity _ => ?_
    rw [hprocessed, List.contains_cons, Bool.not_or]
  rw [unmet, unmet, List.countP_eq_length_filter, List.countP_eq_length_filter, hsplit]
  refine List.length_filter_lt_length_iff_exists.2 ⟨workspace.files.identity path, ?_, by simp⟩
  exact List.mem_filter.2 ⟨hfile, by simpa using new⟩

/-- A depth as great as the number of files still to meet is never used up. -/
theorem exists_enters_followImport (depth : Nat) (source : Source)
    (declarations : List Declaration) (state : Extraction) (scope : FileScope)
    (hdepth : workspace.unmet state ≤ depth) :
    ∃ steps, workspace.Enters source state scope declarations steps
      (declarations.foldl (Extraction.enter (workspace.followImport (depth + 1)) source.name)
        (state, scope)).1 := by
  induction depth using Nat.strongRecOn generalizing source declarations state scope with
  | ind depth ihdepth =>
    induction declarations generalizing state scope with
    | nil => exact ⟨[], .nil⟩
    | cons declaration rest ih =>
      rw [List.foldl_cons]
      by_cases himport : ∃ imported, declaration = .importing imported
      · obtain ⟨imported, rfl⟩ := himport
        rw [Extraction.enter, followImport]
        cases happroach : workspace.approachImport state imported with
        | passed state' =>
          obtain ⟨-, hprocessed, -⟩ := approachImport_passed happroach
          have hle : workspace.unmet state' ≤ workspace.unmet state :=
            unmet_le_of_subset (hprocessed ▸ List.Subset.refl _)
          obtain ⟨steps, hsteps⟩ := ih state' scope (Nat.le_trans hle hdepth)
          exact ⟨_, .passed happroach hsteps⟩
        | failed state' location =>
          obtain ⟨-, -, -, -, hprocessed, -⟩ := approachImport_failed happroach
          have hle : workspace.unmet state' ≤ workspace.unmet state :=
            unmet_le_of_subset (hprocessed ▸ List.subset_cons_self ..)
          obtain ⟨steps, hsteps⟩ := ih state' scope (Nat.le_trans hle hdepth)
          exact ⟨_, .failed happroach hsteps⟩
        | opened state' location declarations =>
          obtain ⟨-, hnew, hdeclarations, -, hprocessed, -⟩ := approachImport_opened happroach
          have hlt := unmet_lt_of_met hnew hdeclarations hprocessed
          -- The nested walk starts with fewer files to meet, so a smaller depth is enough for it.
          obtain ⟨depth', rfl⟩ : ∃ depth', depth = depth' + 1 := ⟨depth - 1, by omega⟩
          obtain ⟨inner, hinner⟩ := ihdepth depth' (by omega) (.ofPath location) declarations state'
            {} (by omega)
          have hle := @unmet_le_of_subset workspace _ _ hinner.processed_subset
          obtain ⟨steps, hsteps⟩ := ih (state'.enterAll (workspace.followImport (depth' + 1))
            (Path.baseName location) declarations) scope
            (Nat.le_trans hle (Nat.le_trans (Nat.le_of_lt hlt) hdepth))
          exact ⟨_, .opened happroach hinner hsteps⟩
      · have hown : ∀ path, declaration ≠ .importing path := fun path e => himport ⟨path, e⟩
        rw [Extraction.enter_of_ne_importing hown]
        have hle : workspace.unmet (state.declare source.name scope declaration) ≤
            workspace.unmet state :=
          unmet_le_of_subset (by simp)
        obtain ⟨steps, hsteps⟩ := ih (state.declare source.name scope declaration)
          (scope.after declaration) (Nat.le_trans hle hdepth)
        exact ⟨_, .own hown hsteps⟩

/-- Every call on a file ends, and what the bounded run computes is what it ends with. -/
theorem exists_extracts (workspace : Workspace) (state : Extraction) (path : Path) :
    ∃ steps, workspace.Extracts state path steps (workspace.extractPath state path) := by
  unfold extractPath
  cases happroach : workspace.approachPath state path with
  | passed outcome => exact ⟨_, .passed happroach⟩
  | failed outcome location => exact ⟨_, .failed happroach⟩
  | opened state' location declarations =>
    obtain ⟨steps, hsteps⟩ := exists_enters_followImport workspace.files.fileCount
      (.ofPath location) declarations state' {} (unmet_le_fileCount state')
    exact ⟨_, .opened happroach hsteps⟩

theorem Enters.unique {source : Source} {state final final' : Extraction} {scope : FileScope}
    {declarations : List Declaration} {steps steps' : List Step}
    (h : workspace.Enters source state scope declarations steps final)
    (h' : workspace.Enters source state scope declarations steps' final') :
    steps = steps' ∧ final = final' := by
  induction h generalizing steps' final' with
  | nil => cases h'; exact ⟨rfl, rfl⟩
  | own hown _ ih =>
    cases h' with
    | own _ next' =>
      obtain ⟨rfl, rfl⟩ := ih next'
      exact ⟨rfl, rfl⟩
    | passed _ _ => exact absurd rfl (hown _)
    | failed _ _ => exact absurd rfl (hown _)
    | opened _ _ _ => exact absurd rfl (hown _)
  | passed happroach _ ih =>
    cases h' with
    | own hown' _ => exact absurd rfl (hown' _)
    | passed happroach' next' =>
      rw [happroach] at happroach'
      cases happroach'
      obtain ⟨rfl, rfl⟩ := ih next'
      exact ⟨rfl, rfl⟩
    | failed happroach' _ => rw [happroach] at happroach'; cases happroach'
    | opened happroach' _ _ => rw [happroach] at happroach'; cases happroach'
  | failed happroach _ ih =>
    cases h' with
    | own hown' _ => exact absurd rfl (hown' _)
    | passed happroach' _ => rw [happroach] at happroach'; cases happroach'
    | failed happroach' next' =>
      rw [happroach] at happroach'
      cases happroach'
      obtain ⟨rfl, rfl⟩ := ih next'
      exact ⟨rfl, rfl⟩
    | opened happroach' _ _ => rw [happroach] at happroach'; cases happroach'
  | opened happroach _ _ ihwalk ihnext =>
    cases h' with
    | own hown' _ => exact absurd rfl (hown' _)
    | passed happroach' _ => rw [happroach] at happroach'; cases happroach'
    | failed happroach' _ => rw [happroach] at happroach'; cases happroach'
    | opened happroach' walk' next' =>
      rw [happroach] at happroach'
      cases happroach'
      obtain ⟨rfl, rfl⟩ := ihwalk walk'
      obtain ⟨rfl, rfl⟩ := ihnext next'
      exact ⟨rfl, rfl⟩

/-- A call on a file has no more than one course. -/
theorem Extracts.unique {state : Extraction} {path : Path} {steps steps' : List Step}
    {outcome outcome' : Except CatalogError Unit × Extraction}
    (h : workspace.Extracts state path steps outcome)
    (h' : workspace.Extracts state path steps' outcome') :
    steps = steps' ∧ outcome = outcome' := by
  cases h with
  | passed happroach =>
    cases h' with
    | passed happroach' => rw [happroach] at happroach'; cases happroach'; exact ⟨rfl, rfl⟩
    | failed happroach' => rw [happroach] at happroach'; cases happroach'
    | opened happroach' _ => rw [happroach] at happroach'; cases happroach'
  | failed happroach =>
    cases h' with
    | passed happroach' => rw [happroach] at happroach'; cases happroach'
    | failed happroach' => rw [happroach] at happroach'; cases happroach'; exact ⟨rfl, rfl⟩
    | opened happroach' _ => rw [happroach] at happroach'; cases happroach'
  | opened happroach walk =>
    cases h' with
    | passed happroach' => rw [happroach] at happroach'; cases happroach'
    | failed happroach' => rw [happroach] at happroach'; cases happroach'
    | opened happroach' walk' =>
      rw [happroach] at happroach'
      cases happroach'
      obtain ⟨rfl, rfl⟩ := walk.unique walk'
      exact ⟨rfl, rfl⟩

/-! ## Lists of calls -/

/-- Extracts files one after another, those after a failure too: the outcome of each call, and the
state after the last. -/
def extractEach (workspace : Workspace) (state : Extraction) :
    List Path → List (Except CatalogError Unit) × Extraction
  | [] => ([], state)
  | path :: paths =>
    let (result, middle) := workspace.extractPath state path
    let (results, final) := workspace.extractEach middle paths
    (result :: results, final)

theorem exists_runs_extractEach (workspace : Workspace) {state : Extraction} {paths : List Path}
    (h : ∀ result ∈ (workspace.extractEach state paths).1, result = .ok ()) :
    ∃ steps, workspace.Runs state paths steps (workspace.extractEach state paths).2 := by
  induction paths generalizing state with
  | nil => exact ⟨[], .nil⟩
  | cons path paths ih =>
    simp only [extractEach, List.forall_mem_cons] at h ⊢
    obtain ⟨hfirst, hrest⟩ := h
    obtain ⟨inner, hinner⟩ := workspace.exists_extracts (state.report []) path
    obtain ⟨steps, hsteps⟩ := ih hrest
    have hreport : state.report [] = state := by simp [Extraction.report]
    rw [hreport] at hinner
    have hcall : workspace.Extracts (state.report []) path inner
        (.ok (), (workspace.extractPath state path).2) := by
      rw [hreport, ← hfirst]
      exact hinner
    exact ⟨inner ++ steps, .cons hcall hsteps⟩

theorem exists_runs_extractAll (workspace : Workspace) {state final : Extraction}
    {paths : List Path} (h : workspace.extractAll state paths = (.ok (), final)) :
    ∃ steps, workspace.Runs state paths steps final := by
  induction paths generalizing state with
  | nil =>
    cases h
    exact ⟨[], .nil⟩
  | cons path paths ih =>
    rw [extractAll] at h
    split at h
    · next middle hfirst =>
      obtain ⟨inner, hinner⟩ :=
        workspace.exists_extracts (state.report [.fileStarted path.baseName]) path
      obtain ⟨steps, hsteps⟩ := ih h
      exact ⟨inner ++ steps, .cons (hfirst ▸ hinner) hsteps⟩
    · cases h

end Workspace

end RpcCatalog
