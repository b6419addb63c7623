import Mathlib
import RpcCatalog.Proofs.Extraction.Registration

/-!
# Import closure

Which files a run comes to: those at the paths it is given, and those that the imports of walked
files lead to.

* `Workspace.Imports`: a file has an import that is followed to a location.
* `Workspace.Reached`: the paths that are reached from given ones through imports.
* `Workspace.Faithful`: files can be read where imports are located; search paths keep this
  (`Workspace.locateImport_faithful`).
* `Workspace.ClosesImports`: the steps of a run meet every file that is reached, once, and walk
  those of them that can be read and are well formed.
* `Workspace.extractEach_import_closure`: every call ends, and calls that all succeed take such
  steps.
-/

set_option autoImplicit false

namespace RpcCatalog

/-- Nothing is met yet. -/
structure Extraction.IsFresh (state : Extraction) : Prop where
  processed : state.processed = []
  malformedImports : state.malformedImports = []

namespace Workspace

/-! ## Imports -/

/-- A file declares an import that is followed to a location. -/
def Imports (workspace : Workspace) (importer location : Path) : Prop :=
  ∃ declarations imported, workspace.files.declarationsAt importer = some declarations ∧
    .importing imported ∈ declarations ∧ workspace.LeadsTo imported location

/-- A path is given, or is where an import of an expanded file leads to. -/
inductive Reached (workspace : Workspace) (paths : List Path) (expanded : Path → Prop) :
    Path → Prop where
  | listed {path : Path} (h : path ∈ paths) : Reached workspace paths expanded path
  | imported {importer location : Path} (reached : Reached workspace paths expanded importer)
    (expand : expanded importer) (h : workspace.Imports importer location) :
    Reached workspace paths expanded location

/-- Where imports are located, a file that can be read can be read at the place located. -/
def Faithful (workspace : Workspace) : Prop :=
  ∀ imported location path text, workspace.location imported = some location →
    workspace.files.identity path = workspace.files.identity location →
      workspace.files.readText path = .ok text →
        ∃ text', workspace.files.readText location = .ok text'

variable {workspace : Workspace}

/-- Imports located along a search path are located faithfully. -/
theorem locateImport_faithful {roots : List Path}
    (h : workspace.location = workspace.files.locateImport roots) : workspace.Faithful := by
  intro imported location path text hlocation hidentity hread
  rw [h] at hlocation
  have hfile : workspace.files.isFile location := by
    unfold FileSystem.locateImport at hlocation
    exact List.find?_some hlocation
  exact ⟨text, FileSystem.readText_of_isFile hidentity hread hfile⟩

theorem Reached.mono {paths paths' : List Path} {expanded expanded' : Path → Prop} {path : Path}
    (h : workspace.Reached paths expanded path) (hsub : paths ⊆ paths')
    (hle : ∀ path, expanded path → expanded' path) : workspace.Reached paths' expanded' path := by
  induction h with
  | listed h => exact .listed (hsub h)
  | imported _ expand h ih => exact .imported ih (hle _ expand) h

/-! ## The imports of a text -/

section Enters

variable {source : Source} {state final : Extraction} {scope : FileScope}
  {declarations : List Declaration} {steps : List Step}

/-- Whatever holds where the imports of the text lead to, and where those of walked files lead to,
holds wherever a file is met. -/
theorem Enters.met_of_closed
    (h : workspace.Enters source state scope declarations steps final) {closed : Path → Prop}
    (hown : ∀ imported location, .importing imported ∈ declarations →
      workspace.LeadsTo imported location → closed location)
    (hwalked : ∀ importer ∈ walkedPaths steps, closed importer → ∀ location,
      workspace.Imports importer location → closed location) :
    ∀ path ∈ metPaths steps, closed path := by
  induction h with
  | nil => exact fun _ hpath => (List.not_mem_nil hpath).elim
  | own _ _ ih =>
    exact ih (fun imported location hmem => hown imported location (List.mem_cons_of_mem _ hmem))
      hwalked
  | passed _ _ ih =>
    exact ih (fun imported location hmem => hown imported location (List.mem_cons_of_mem _ hmem))
      hwalked
  | failed happroach _ ih =>
    obtain ⟨hleads, -⟩ := approachImport_failed happroach
    simp only [metPaths_entered, metPaths_met, List.forall_mem_cons]
    exact ⟨hown _ _ List.mem_cons_self hleads,
      ih (fun imported location hmem => hown imported location (List.mem_cons_of_mem _ hmem))
        hwalked⟩
  | opened happroach _ _ ihwalk ihnext =>
    obtain ⟨hleads, -, hsome, -⟩ := approachImport_opened happroach
    simp only [walkedPaths_entered, walkedPaths_met_some, walkedPaths_append, List.forall_mem_cons,
      List.forall_mem_append] at hwalked
    obtain ⟨hlocation, hinner, hrest⟩ := hwalked
    have hclosed := hown _ _ List.mem_cons_self hleads
    simp only [metPaths_entered, metPaths_met, metPaths_append, List.forall_mem_cons,
      List.forall_mem_append]
    refine ⟨hclosed, ihwalk (fun imported location hmem hleads => ?_) hinner,
      ihnext (fun imported location hmem => hown imported location (List.mem_cons_of_mem _ hmem))
        hrest⟩
    exact hlocation hclosed location ⟨_, imported, hsome, hmem, hleads⟩

theorem Enters.own_imports_met
    (h : workspace.Enters source state scope declarations steps final) {imported : String}
    {location : Path} (hmem : .importing imported ∈ declarations)
    (hleads : workspace.LeadsTo imported location) :
    workspace.files.identity location ∈ final.processed := by
  induction h with
  | nil => cases hmem
  | own hown _ ih =>
    obtain rfl | hmem := List.mem_cons.1 hmem
    · exact absurd rfl (hown imported)
    · exact ih hmem
  | passed happroach next ih =>
    obtain h | hmem := List.mem_cons.1 hmem
    · cases h
      obtain ⟨-, hprocessed, -, hmet⟩ := approachImport_passed happroach
      exact next.processed_subset (hprocessed ▸ hmet location hleads)
    · exact ih hmem
  | failed happroach next ih =>
    obtain h | hmem := List.mem_cons.1 hmem
    · cases h
      obtain ⟨hleads', -, -, -, hprocessed, -⟩ := approachImport_failed happroach
      obtain rfl := hleads.unique hleads'
      exact next.processed_subset (hprocessed ▸ List.mem_cons_self)
    · exact ih hmem
  | opened happroach walk next _ ih =>
    obtain h | hmem := List.mem_cons.1 hmem
    · cases h
      obtain ⟨hleads', -, -, -, hprocessed, -⟩ := approachImport_opened happroach
      obtain rfl := hleads.unique hleads'
      exact next.processed_subset (walk.processed_subset (hprocessed ▸ List.mem_cons_self))
    · exact ih hmem

theorem Enters.walked_imports_met
    (h : workspace.Enters source state scope declarations steps final) {importer location : Path}
    (hwalked : importer ∈ walkedPaths steps) (himports : workspace.Imports importer location) :
    workspace.files.identity location ∈ final.processed := by
  induction h with
  | nil => cases hwalked
  | own _ _ ih => exact ih hwalked
  | passed _ _ ih => exact ih hwalked
  | failed _ _ ih => exact ih hwalked
  | opened happroach walk next ihwalk ihnext =>
    simp only [walkedPaths_entered, walkedPaths_met_some, walkedPaths_append, List.mem_cons,
      List.mem_append] at hwalked
    obtain rfl | hwalked | hwalked := hwalked
    · obtain ⟨-, -, hsome, -⟩ := approachImport_opened happroach
      obtain ⟨declarations', imported, hsome', hmem, hleads⟩ := himports
      obtain rfl := Option.some.inj (hsome.symm.trans hsome')
      exact next.processed_subset (walk.own_imports_met hmem hleads)
    · exact next.processed_subset (ihwalk hwalked)
    · exact ihnext hwalked

theorem Enters.malformed_met
    (h : workspace.Enters source state scope declarations steps final)
    (hstate : ∀ entry ∈ state.malformedImports, entry.1 ∈ state.processed) :
    ∀ entry ∈ final.malformedImports, entry.1 ∈ final.processed := by
  induction h with
  | nil => exact hstate
  | own _ _ ih => exact ih (by simpa using hstate)
  | passed happroach _ ih =>
    obtain ⟨-, hprocessed, hmalformed, -⟩ := approachImport_passed happroach
    exact ih (by rw [hprocessed, hmalformed]; exact hstate)
  | failed happroach _ ih =>
    obtain ⟨-, -, -, -, hprocessed, hmalformed⟩ := approachImport_failed happroach
    refine ih fun entry hentry => ?_
    rw [hprocessed]
    obtain hentry | e := hmalformed entry hentry
    · exact List.mem_cons_of_mem _ (hstate entry hentry)
    · exact e ▸ List.mem_cons_self
  | opened happroach _ _ ihwalk ihnext =>
    obtain ⟨-, -, -, -, hprocessed, hmalformed⟩ := approachImport_opened happroach
    refine ihnext (ihwalk fun entry hentry => ?_)
    rw [hprocessed]
    exact List.mem_cons_of_mem _ (hstate entry (hmalformed ▸ hentry))

end Enters

/-! ## The imports of calls -/

section Extracts

variable {state : Extraction} {path : Path} {steps : List Step}
  {outcome : Except CatalogError Unit × Extraction}

theorem Extracts.met_of_closed (h : workspace.Extracts state path steps outcome)
    {closed : Path → Prop} (hpath : closed path)
    (hwalked : ∀ importer ∈ walkedPaths steps, closed importer → ∀ location,
      workspace.Imports importer location → closed location) :
    ∀ path ∈ metPaths steps, closed path := by
  cases h with
  | passed => exact fun _ hmet => (List.not_mem_nil hmet).elim
  | failed happroach =>
    obtain ⟨rfl, -⟩ := approachPath_failed happroach
    exact fun _ hmet => List.mem_singleton.1 hmet ▸ hpath
  | opened happroach walk =>
    obtain ⟨rfl, -, hsome, -⟩ := approachPath_opened happroach
    simp only [walkedPaths_met_some, List.forall_mem_cons] at hwalked
    rw [metPaths_met, List.forall_mem_cons]
    refine ⟨hpath, walk.met_of_closed (fun imported location hmem hleads => ?_) hwalked.2⟩
    exact hwalked.1 hpath location ⟨_, imported, hsome, hmem, hleads⟩

theorem Extracts.walked_imports_met (h : workspace.Extracts state path steps outcome)
    {importer location : Path} (hwalked : importer ∈ walkedPaths steps)
    (himports : workspace.Imports importer location) :
    workspace.files.identity location ∈ outcome.2.processed := by
  cases h with
  | passed => cases hwalked
  | failed => cases hwalked
  | opened happroach walk =>
    obtain ⟨rfl, -, hsome, -⟩ := approachPath_opened happroach
    rw [walkedPaths_met_some] at hwalked
    obtain rfl | hwalked := List.mem_cons.1 hwalked
    · obtain ⟨declarations', imported, hsome', hmem, hleads⟩ := himports
      obtain rfl := Option.some.inj (hsome.symm.trans hsome')
      exact walk.own_imports_met hmem hleads
    · exact walk.walked_imports_met hwalked himports

theorem Extracts.malformed_met (h : workspace.Extracts state path steps outcome)
    (hstate : ∀ entry ∈ state.malformedImports, entry.1 ∈ state.processed) :
    ∀ entry ∈ outcome.2.malformedImports, entry.1 ∈ outcome.2.processed := by
  cases h with
  | passed happroach =>
    obtain ⟨-, hprocessed, hmalformed, -⟩ := approachPath_passed happroach
    exact fun entry hentry => hprocessed ▸ hstate entry (hmalformed entry hentry)
  | failed happroach =>
    obtain ⟨-, -, -, -, hprocessed, hmalformed, -⟩ := approachPath_failed happroach
    rw [hprocessed, hmalformed]
    exact fun entry hentry => List.mem_cons_of_mem _ (hstate entry hentry)
  | opened happroach walk =>
    obtain ⟨-, -, -, -, hprocessed, hmalformed⟩ := approachPath_opened happroach
    refine walk.malformed_met ?_
    rw [hprocessed, hmalformed]
    exact fun entry hentry => List.mem_cons_of_mem _ (hstate entry hentry)

theorem Extracts.listed_met (h : workspace.Extracts state path steps outcome)
    (hstate : ∀ entry ∈ state.malformedImports, entry.1 ∈ state.processed) :
    workspace.files.identity path ∈ outcome.2.processed := by
  cases h with
  | passed happroach =>
    obtain ⟨-, hprocessed, -, hmet | hmalformed⟩ := approachPath_passed happroach
    · exact hprocessed ▸ hmet
    · obtain ⟨malformed, hlookup⟩ := Option.isSome_iff_exists.1 hmalformed
      obtain ⟨front, back, hsplit, -⟩ := List.lookup_eq_some_iff.1 hlookup
      rw [hprocessed]
      exact hstate (_, malformed) (hsplit ▸ List.mem_append_right _ List.mem_cons_self)
  | failed happroach =>
    obtain ⟨-, -, -, -, hprocessed, -, -⟩ := approachPath_failed happroach
    exact hprocessed ▸ List.mem_cons_self
  | opened happroach walk =>
    obtain ⟨-, -, -, -, hprocessed, -⟩ := approachPath_opened happroach
    exact walk.processed_subset (hprocessed ▸ List.mem_cons_self)

/-- A call that succeeds meets only files that it can read or that imports of walked files lead
to. -/
theorem Extracts.met_readable (h : workspace.Extracts state path steps outcome)
    (hok : outcome.1 = .ok ()) :
    ∀ path ∈ metPaths steps, (∃ text, workspace.files.readText path = .ok text) ∨
      ∃ importer ∈ walkedPaths steps, workspace.Imports importer path := by
  cases h with
  | passed => exact fun _ hmet => (List.not_mem_nil hmet).elim
  | failed happroach =>
    obtain ⟨rfl, -, -, -, -, -, hreadable⟩ := approachPath_failed happroach
    exact fun _ hmet => .inl (List.mem_singleton.1 hmet ▸ hreadable hok)
  | @opened _ _ location declarations steps happroach walk =>
    obtain ⟨rfl, -, hsome, -⟩ := approachPath_opened happroach
    have himported : ∀ path ∈ metPaths steps, ∃ importer ∈ location :: walkedPaths steps,
        workspace.Imports importer path :=
      walk.met_of_closed
        (fun imported _ hmem hleads =>
          ⟨location, List.mem_cons_self, _, imported, hsome, hmem, hleads⟩)
        fun importer hwalked _ _ himports => ⟨importer, List.mem_cons_of_mem _ hwalked, himports⟩
    rw [metPaths_met, List.forall_mem_cons]
    exact ⟨.inl (FileSystem.readable_of_declarationsAt hsome),
      fun path hmet => .inr (himported path hmet)⟩

end Extracts

section Runs

variable {state final : Extraction} {paths : List Path} {steps : List Step}

theorem Runs.processed_subset (h : workspace.Runs state paths steps final) :
    state.processed ⊆ final.processed := by
  rw [h.walks.processed_eq]
  exact List.subset_append_right _ _

theorem Runs.met_of_closed (h : workspace.Runs state paths steps final) {closed : Path → Prop}
    (hpaths : ∀ path ∈ paths, closed path)
    (hwalked : ∀ importer ∈ walkedPaths steps, closed importer → ∀ location,
      workspace.Imports importer location → closed location) :
    ∀ path ∈ metPaths steps, closed path := by
  induction h with
  | nil => exact fun _ hmet => (List.not_mem_nil hmet).elim
  | cons first _ ih =>
    rw [walkedPaths_append, List.forall_mem_append] at hwalked
    rw [List.forall_mem_cons] at hpaths
    rw [metPaths_append, List.forall_mem_append]
    exact ⟨first.met_of_closed hpaths.1 hwalked.1, ih hpaths.2 hwalked.2⟩

theorem Runs.walked_imports_met (h : workspace.Runs state paths steps final)
    {importer location : Path} (hwalked : importer ∈ walkedPaths steps)
    (himports : workspace.Imports importer location) :
    workspace.files.identity location ∈ final.processed := by
  induction h with
  | nil => cases hwalked
  | cons first next ih =>
    rw [walkedPaths_append] at hwalked
    obtain hwalked | hwalked := List.mem_append.1 hwalked
    · exact next.processed_subset (first.walked_imports_met hwalked himports)
    · exact ih hwalked

theorem Runs.listed_met (h : workspace.Runs state paths steps final)
    (hstate : ∀ entry ∈ state.malformedImports, entry.1 ∈ state.processed) {path : Path}
    (hpath : path ∈ paths) : workspace.files.identity path ∈ final.processed := by
  induction h with
  | nil => cases hpath
  | cons first next ih =>
    obtain rfl | hpath := List.mem_cons.1 hpath
    · exact next.processed_subset (first.listed_met hstate)
    · exact ih (first.malformed_met hstate) hpath

theorem Runs.met_readable (h : workspace.Runs state paths steps final) :
    ∀ path ∈ metPaths steps, (∃ text, workspace.files.readText path = .ok text) ∨
      ∃ importer ∈ walkedPaths steps, workspace.Imports importer path := by
  induction h with
  | nil => exact fun _ hmet => (List.not_mem_nil hmet).elim
  | cons first _ ih =>
    rw [metPaths_append, List.forall_mem_append, walkedPaths_append]
    refine ⟨fun path hmet => (first.met_readable rfl path hmet).imp_right ?_,
      fun path hmet => (ih path hmet).imp_right ?_⟩
    · exact fun ⟨importer, hwalked, himports⟩ =>
        ⟨importer, List.mem_append_left _ hwalked, himports⟩
    · exact fun ⟨importer, hwalked, himports⟩ =>
        ⟨importer, List.mem_append_right _ hwalked, himports⟩

end Runs

/-! ## The closure -/

/-- The steps of calls on files, from where nothing is met: the files met are those reached from the
given paths when files that are walked are expanded. -/
structure ClosesImports (workspace : Workspace) (paths : List Path) (steps : List Step) : Prop where
  /-- No file is met twice. -/
  met_nodup : ((metPaths steps).map workspace.files.identity).Nodup
  met_reached : ∀ path ∈ metPaths steps, workspace.Reached paths (· ∈ walkedPaths steps) path
  reached_met : ∀ path, workspace.Reached paths (· ∈ walkedPaths steps) path →
    workspace.files.identity path ∈ (metPaths steps).map workspace.files.identity
  /-- A file is walked if it can be read at the path where it is met, and is well formed. -/
  walked_iff : ∀ path, path ∈ walkedPaths steps ↔
    path ∈ metPaths steps ∧ (workspace.files.declarationsAt path).isSome
  /-- A file that is walked is entered once, from the first declaration to the last. -/
  walked_entered : ∀ path ∈ walkedPaths steps, ∀ declarations,
    workspace.files.declarationsAt path = some declarations →
      enteredFrom (.ofPath path) steps = scopedDeclarations {} declarations
  entered_walked : ∀ source scope declaration, .entered source scope declaration ∈ steps →
    ∃ path ∈ walkedPaths steps, source = .ofPath path

theorem Runs.closesImports {state final : Extraction} {paths : List Path} {steps : List Step}
    (h : workspace.Runs state paths steps final) (hfresh : state.IsFresh) :
    workspace.ClosesImports paths steps where
  met_nodup := h.walks.metPaths_nodup (hfresh.processed ▸ .nil)
  met_reached := h.met_of_closed (fun _ hpath => .listed hpath)
    fun _ hwalked hreached _ himports => .imported hreached hwalked himports
  reached_met path hreached := by
    have hmet : ∀ identity ∈ final.processed,
        identity ∈ (metPaths steps).map workspace.files.identity := by
      rw [h.walks.processed_eq, hfresh.processed]
      simp
    cases hreached with
    | listed hpath => exact hmet _ (h.listed_met (by simp [hfresh.malformedImports]) hpath)
    | imported _ hwalked himports => exact hmet _ (h.walked_imports_met hwalked himports)
  walked_iff _ := h.walks.mem_walkedPaths_iff
  walked_entered := h.walks.walked_entered (hfresh.processed ▸ .nil)
  entered_walked _ _ _ := h.walks.entered_source

/-- With faithful locations, the files walked are all those reached, by whatever path, that can be
read and are well formed. -/
theorem Runs.walked_iff_reached {state final : Extraction} {paths : List Path}
    {steps : List Step} (h : workspace.Runs state paths steps final) (hfresh : state.IsFresh)
    (hfaithful : workspace.Faithful) (file : FileSystem.Identity) :
    file ∈ (walkedPaths steps).map workspace.files.identity ↔
      ∃ path, workspace.Reached paths (fun _ => True) path ∧
        workspace.files.identity path = file ∧ (workspace.files.declarationsAt path).isSome := by
  have hcloses := h.closesImports hfresh
  -- A file that is met at one path and well formed at another is walked.
  have hwalked : ∀ path, workspace.files.identity path ∈
      (metPaths steps).map workspace.files.identity →
        (workspace.files.declarationsAt path).isSome →
          ∃ path' ∈ walkedPaths steps, workspace.files.identity path' =
            workspace.files.identity path ∧
              workspace.files.declarationsAt path' = workspace.files.declarationsAt path := by
    intro path hmet hsome
    obtain ⟨path', hmet', hidentity⟩ := List.mem_map.1 hmet
    obtain ⟨declarations, hdeclarations⟩ := Option.isSome_iff_exists.1 hsome
    obtain ⟨text, htext⟩ := FileSystem.readable_of_declarationsAt hdeclarations
    have hreadable : ∃ text', workspace.files.readText path' = .ok text' := by
      obtain hread | ⟨importer, -, _, imported, -, -, hleads⟩ := h.met_readable path' hmet'
      · exact hread
      · exact hfaithful imported path' path text hleads.2 hidentity.symm htext
    obtain ⟨text', htext'⟩ := hreadable
    have hsame : workspace.files.declarationsAt path' = workspace.files.declarationsAt path := by
      obtain rfl := FileSystem.readText_unique hidentity htext' htext
      rw [FileSystem.declarationsAt_of_readText htext, FileSystem.declarationsAt_of_readText htext']
    exact ⟨path', (hcloses.walked_iff path').2 ⟨hmet', hsame ▸ hsome⟩, hidentity, hsame⟩
  have hmet : ∀ path, workspace.Reached paths (fun _ => True) path →
      workspace.files.identity path ∈ (metPaths steps).map workspace.files.identity := by
    intro path hreached
    induction hreached with
    | listed hpath => exact hcloses.reached_met _ (.listed hpath)
    | @imported importer location _ _ himports ih =>
      obtain ⟨declarations, imported, hdeclarations, hmem, hleads⟩ := himports
      obtain ⟨path', hpath', -, hsame⟩ := hwalked importer ih (hdeclarations ▸ rfl)
      exact hcloses.reached_met _ (.imported
        (hcloses.met_reached _ ((hcloses.walked_iff path').1 hpath').1) hpath'
        ⟨declarations, imported, hsame.trans hdeclarations, hmem, hleads⟩)
  constructor
  · intro hfile
    obtain ⟨path, hpath, rfl⟩ := List.mem_map.1 hfile
    obtain ⟨hmetPath, hsome⟩ := (hcloses.walked_iff path).1 hpath
    exact ⟨path, (hcloses.met_reached path hmetPath).mono (List.Subset.refl _) fun _ _ => trivial,
      rfl, hsome⟩
  · rintro ⟨path, hreached, rfl, hsome⟩
    obtain ⟨path', hpath', hidentity, -⟩ := hwalked path (hmet path hreached) hsome
    exact hidentity ▸ List.mem_map_of_mem hpath'

theorem Runs.isSome_find?_iff {state final : Extraction} {paths : List Path} {steps : List Step}
    (h : workspace.Runs state paths steps final) (hfresh : state.IsFresh)
    (package : Option String) (name : String) :
    (final.table.types.find? package name).isSome ↔
      (state.table.types.find? package name).isSome ∨
        ∃ path ∈ walkedPaths steps, ∃ declarations,
          workspace.files.declarationsAt path = some declarations ∧
            ∃ scope, (scope, .message name) ∈ scopedDeclarations {} declarations ∧
              scope.package.getD "" = package.getD "" := by
  have hcloses := h.closesImports hfresh
  rw [h.table_eq, SymbolTable.isSome_find?_replay]
  refine or_congr_right ⟨?_, ?_⟩
  · rintro ⟨source, scope, hentered, hpackage⟩
    obtain ⟨path, hpath, rfl⟩ := hcloses.entered_walked _ _ _ hentered
    obtain ⟨declarations, hdeclarations⟩ :=
      Option.isSome_iff_exists.1 ((hcloses.walked_iff path).1 hpath).2
    rw [← mem_enteredFrom, hcloses.walked_entered path hpath declarations hdeclarations] at hentered
    exact ⟨path, hpath, declarations, hdeclarations, scope, hentered, hpackage⟩
  · rintro ⟨path, hpath, declarations, hdeclarations, scope, hmem, hpackage⟩
    rw [← hcloses.walked_entered path hpath declarations hdeclarations, mem_enteredFrom] at hmem
    exact ⟨_, scope, hmem, hpackage⟩

/-- Every call on a file ends, with one course. Calls that all succeed, from where nothing is met,
close the given paths under imports; with faithful locations the files walked are all those reached
that can be read and are well formed; and in a table that knew no message, the messages known are
those that the walked files declare. -/
theorem extractEach_import_closure (workspace : Workspace) (table : SymbolTable)
    (paths : List Path) :
    (∀ state path, ∃ steps, ∀ steps' outcome,
      workspace.Extracts state path steps' outcome ↔
        steps' = steps ∧ outcome = workspace.extractPath state path) ∧
    ((∀ result ∈ (workspace.extractEach { table } paths).1, result = .ok ()) →
      ∃ steps, workspace.Runs { table } paths steps (workspace.extractEach { table } paths).2 ∧
        workspace.ClosesImports paths steps ∧
        (workspace.Faithful → ∀ file,
          file ∈ (walkedPaths steps).map workspace.files.identity ↔
            ∃ path, workspace.Reached paths (fun _ => True) path ∧
              workspace.files.identity path = file ∧
                (workspace.files.declarationsAt path).isSome) ∧
        (table.types = .empty → ∀ package name,
          ((workspace.extractEach { table } paths).2.table.types.find? package name).isSome ↔
            ∃ path ∈ walkedPaths steps, ∃ declarations,
              workspace.files.declarationsAt path = some declarations ∧
                ∃ scope, (scope, .message name) ∈ scopedDeclarations {} declarations ∧
                  scope.package.getD "" = package.getD "")) := by
  refine ⟨fun state path => ?_, fun hok => ?_⟩
  · obtain ⟨steps, hsteps⟩ := workspace.exists_extracts state path
    refine ⟨steps, fun steps' outcome => ⟨fun h => h.unique hsteps, ?_⟩⟩
    rintro ⟨rfl, rfl⟩
    exact hsteps
  · obtain ⟨steps, hruns⟩ := workspace.exists_runs_extractEach hok
    have hfresh : Extraction.IsFresh { table } := ⟨rfl, rfl⟩
    refine ⟨steps, hruns, hruns.closesImports hfresh, hruns.walked_iff_reached hfresh,
      fun hempty package name => ?_⟩
    rw [hruns.isSome_find?_iff hfresh, hempty]
    simp [TypeRegistry.find?, TypeRegistry.package?, TypeRegistry.empty]

/-- Two files that import each other. -/
def circular : Workspace where
  files :=
    { rootEntries :=
        [("a.proto", .file "import \"b.proto\"; message A \x7b\x7d".toUTF8),
          ("b.proto", .file "import \"a.proto\"; message B \x7b\x7d".toUTF8)]
      workingDirectory := [] }
  location imported := some ("/" ++ imported)

theorem circular_import_closure :
    (∀ result ∈ (circular.extractEach { table := .empty } ["/a.proto", "/b.proto"]).1,
      result = .ok ()) ∧
    ∃ steps, circular.ClosesImports ["/a.proto", "/b.proto"] steps := by
  have hok : ∀ result ∈ (circular.extractEach { table := .empty } ["/a.proto", "/b.proto"]).1,
      result = .ok () := by
    have hresults : (circular.extractEach { table := .empty } ["/a.proto", "/b.proto"]).1 =
        [.ok (), .ok ()] := by
      cbv
    simp [hresults]
  obtain ⟨steps, -, hcloses, -⟩ :=
    (extractEach_import_closure circular .empty ["/a.proto", "/b.proto"]).2 hok
  exact ⟨hok, steps, hcloses⟩

/-- An import is located at the path of a file with a slash after it, where nothing can be read. -/
def slashed : Workspace where
  files :=
    { rootEntries :=
        [("a.proto", .file "import \"x\"; message A \x7b\x7d".toUTF8),
          ("b.proto", .file "message B \x7b\x7d".toUTF8)]
      workingDirectory := [] }
  location _ := some "/b.proto/"

/-- A file may be given, be readable and well formed, and yet not be walked in calls that all
succeed, where a location is not faithful. -/
theorem slashed_not_walked :
    (∀ result ∈ (slashed.extractEach { table := .empty } ["/a.proto", "/b.proto"]).1,
      result = .ok ()) ∧
    slashed.Reached ["/a.proto", "/b.proto"] (fun _ => True) "/b.proto" ∧
    (slashed.files.declarationsAt "/b.proto").isSome ∧
    ∀ steps, slashed.Runs { table := .empty } ["/a.proto", "/b.proto"] steps
        (slashed.extractEach { table := .empty } ["/a.proto", "/b.proto"]).2 →
      slashed.files.identity "/b.proto" ∉ (walkedPaths steps).map slashed.files.identity := by
  have hresults : (slashed.extractEach { table := .empty } ["/a.proto", "/b.proto"]).1 =
      [.ok (), .ok ()] := by
    cbv
  have hdeclarations : slashed.files.declarationsAt "/b.proto" = some [.message "B"] := by cbv
  refine ⟨by simp [hresults], .listed (by simp), hdeclarations ▸ rfl, fun steps hruns hmem => ?_⟩
  have hfresh : Extraction.IsFresh { table := .empty } := ⟨rfl, rfl⟩
  obtain ⟨path, hpath, hidentity⟩ := List.mem_map.1 hmem
  obtain ⟨-, hsome⟩ := ((hruns.closesImports hfresh).walked_iff path).1 hpath
  obtain ⟨declarations, hpathDeclarations⟩ := Option.isSome_iff_exists.1 hsome
  obtain rfl := slashed.files.declarationsAt_unique hidentity hpathDeclarations hdeclarations
  -- The message of the file would be known if the file were walked.
  have hknown := (hruns.isSome_find?_iff hfresh none "B").2 <| .inr
    ⟨path, hpath, [.message "B"], hpathDeclarations, {}, by simp [scopedDeclarations], rfl⟩
  have hunknown : ((slashed.extractEach { table := .empty } ["/a.proto", "/b.proto"]).2.table.types
      |>.find? none "B").isSome = false := by
    cbv
  rw [hunknown] at hknown
  cases hknown

end Workspace

end RpcCatalog
