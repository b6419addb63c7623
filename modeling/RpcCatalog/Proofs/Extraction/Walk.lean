import Mathlib.Data.List.Nodup
import RpcCatalog.Proofs.Extraction.Course

/-!
# What a run walks

The files and declarations that the steps of a run tell of.

* `metPaths`, `walkedPaths`: the paths at which files were met, and those of them whose declarations
  were entered. `enteredFrom`: what was entered of one text.
* `Workspace.Walks`: steps that meet every file once, and enter the declarations of the files they
  open from the first to the last, each once and nothing else. Calls on files take such steps
  (`Workspace.Extracts.walks`), and so do lists of calls (`Workspace.Runs.walks`).
-/

set_option autoImplicit false

namespace RpcCatalog

/-! ## Files and declarations in steps -/

/-- The path at which a step meets a file. -/
def Step.metPath? : Step → Option Path
  | .met path _ => some path
  | .entered .. => none

/-- The path at which a step meets a file whose declarations follow. -/
def Step.walkedPath? : Step → Option Path
  | .met path (some _) => some path
  | .met _ none => none
  | .entered .. => none

/-- What a step enters of a text. -/
def Step.enteredFrom? (source : Source) : Step → Option (FileScope × Declaration)
  | .met .. => none
  | .entered source' scope declaration =>
    if source' = source then some (scope, declaration) else none

/-- The paths at which files are met. -/
def metPaths (steps : List Step) : List Path := steps.filterMap Step.metPath?

/-- The paths at which files are met whose declarations are entered. -/
def walkedPaths (steps : List Step) : List Path := steps.filterMap Step.walkedPath?

/-- What is entered of a text. -/
def enteredFrom (source : Source) (steps : List Step) : List (FileScope × Declaration) :=
  steps.filterMap (Step.enteredFrom? source)

/-- Declarations, each with what those before it say. -/
def scopedDeclarations (scope : FileScope) : List Declaration → List (FileScope × Declaration)
  | [] => []
  | declaration :: rest => (scope, declaration) :: scopedDeclarations (scope.after declaration) rest

@[simp] theorem metPaths_append (steps steps' : List Step) :
    metPaths (steps ++ steps') = metPaths steps ++ metPaths steps' := List.filterMap_append

@[simp] theorem metPaths_met (path : Path) (content : Option (List Declaration))
    (steps : List Step) : metPaths (.met path content :: steps) = path :: metPaths steps := rfl

@[simp] theorem metPaths_entered (source : Source) (scope : FileScope) (declaration : Declaration)
    (steps : List Step) : metPaths (.entered source scope declaration :: steps) = metPaths steps :=
  rfl

@[simp] theorem walkedPaths_append (steps steps' : List Step) :
    walkedPaths (steps ++ steps') = walkedPaths steps ++ walkedPaths steps' :=
  List.filterMap_append

@[simp] theorem walkedPaths_met_some (path : Path) (declarations : List Declaration)
    (steps : List Step) :
    walkedPaths (.met path (some declarations) :: steps) = path :: walkedPaths steps := rfl

@[simp] theorem walkedPaths_met_none (path : Path) (steps : List Step) :
    walkedPaths (.met path none :: steps) = walkedPaths steps := rfl

@[simp] theorem walkedPaths_entered (source : Source) (scope : FileScope)
    (declaration : Declaration) (steps : List Step) :
    walkedPaths (.entered source scope declaration :: steps) = walkedPaths steps := rfl

@[simp] theorem enteredFrom_append (source : Source) (steps steps' : List Step) :
    enteredFrom source (steps ++ steps') = enteredFrom source steps ++ enteredFrom source steps' :=
  List.filterMap_append

@[simp] theorem enteredFrom_met (source : Source) (path : Path)
    (content : Option (List Declaration)) (steps : List Step) :
    enteredFrom source (.met path content :: steps) = enteredFrom source steps := rfl

@[simp] theorem enteredFrom_entered_self (source : Source) (scope : FileScope)
    (declaration : Declaration) (steps : List Step) :
    enteredFrom source (.entered source scope declaration :: steps) =
      (scope, declaration) :: enteredFrom source steps := by
  simp [enteredFrom, Step.enteredFrom?]

theorem enteredFrom_entered_of_ne {source source' : Source} (h : source' ≠ source)
    (scope : FileScope) (declaration : Declaration) (steps : List Step) :
    enteredFrom source (.entered source' scope declaration :: steps) =
      enteredFrom source steps := by
  simp [enteredFrom, Step.enteredFrom?, h]

theorem mem_enteredFrom {source : Source} {steps : List Step} {scope : FileScope}
    {declaration : Declaration} :
    (scope, declaration) ∈ enteredFrom source steps ↔
      .entered source scope declaration ∈ steps := by
  unfold enteredFrom
  rw [List.mem_filterMap]
  constructor
  · rintro ⟨step, hstep, h⟩
    cases step with
    | met path content => cases h
    | entered source' scope' declaration' =>
      simp only [Step.enteredFrom?] at h
      split at h
      · next e =>
        cases e
        cases h
        exact hstep
      · cases h
  · intro h
    exact ⟨_, h, by simp [Step.enteredFrom?]⟩

theorem mem_metPaths {path : Path} {steps : List Step} :
    path ∈ metPaths steps ↔ ∃ content, .met path content ∈ steps := by
  unfold metPaths
  rw [List.mem_filterMap]
  constructor
  · rintro ⟨step, hstep, h⟩
    cases step with
    | met path' content => exact ⟨content, Option.some.inj h ▸ hstep⟩
    | entered source scope declaration => cases h
  · rintro ⟨content, h⟩
    exact ⟨_, h, rfl⟩

theorem mem_walkedPaths {path : Path} {steps : List Step} :
    path ∈ walkedPaths steps ↔ ∃ declarations, .met path (some declarations) ∈ steps := by
  unfold walkedPaths
  rw [List.mem_filterMap]
  constructor
  · rintro ⟨step, hstep, h⟩
    cases step with
    | met path' content =>
      cases content with
      | none => cases h
      | some declarations => exact ⟨declarations, Option.some.inj h ▸ hstep⟩
    | entered source scope declaration => cases h
  · rintro ⟨declarations, h⟩
    exact ⟨_, h, rfl⟩

theorem Source.ofPath_inj {path path' : Path} (h : Source.ofPath path = Source.ofPath path') :
    path = path' :=
  Option.some.inj (congrArg Source.path h)

theorem walkedPaths_sublist_metPaths (steps : List Step) :
    (walkedPaths steps).Sublist (metPaths steps) := by
  induction steps with
  | nil => exact .slnil
  | cons step steps ih =>
    cases step with
    | entered source scope declaration => simpa using ih
    | met path content =>
      cases content with
      | none => exact ih.cons path
      | some declarations => exact ih.cons_cons path

namespace Workspace

variable {workspace : Workspace}

/-! ## The steps of a text -/

section Enters

variable {source : Source} {state final : Extraction} {scope : FileScope}
  {declarations : List Declaration} {steps : List Step}

theorem Enters.processed_eq
    (h : workspace.Enters source state scope declarations steps final) :
    final.processed =
      ((metPaths steps).map workspace.files.identity).reverse ++ state.processed := by
  induction h with
  | nil => rfl
  | own _ _ ih => simpa using ih
  | passed happroach _ ih =>
    rw [(approachImport_passed happroach).2.1] at ih
    simpa using ih
  | failed happroach _ ih =>
    obtain ⟨-, -, -, -, hprocessed, -⟩ := approachImport_failed happroach
    simp [ih, hprocessed]
  | opened happroach _ _ ihwalk ihnext =>
    obtain ⟨-, -, -, -, hprocessed, -⟩ := approachImport_opened happroach
    simp [ihnext, ihwalk, hprocessed]

theorem Enters.processed_nodup
    (h : workspace.Enters source state scope declarations steps final)
    (hstate : state.processed.Nodup) : final.processed.Nodup := by
  induction h with
  | nil => exact hstate
  | own _ _ ih => exact ih (by simpa using hstate)
  | passed happroach _ ih =>
    obtain ⟨-, hprocessed, -⟩ := approachImport_passed happroach
    exact ih (hprocessed ▸ hstate)
  | failed happroach _ ih =>
    obtain ⟨-, hnew, -, -, hprocessed, -⟩ := approachImport_failed happroach
    exact ih (hprocessed ▸ List.nodup_cons.2 ⟨hnew, hstate⟩)
  | opened happroach _ _ ihwalk ihnext =>
    obtain ⟨-, hnew, -, -, hprocessed, -⟩ := approachImport_opened happroach
    exact ihnext (ihwalk (hprocessed ▸ List.nodup_cons.2 ⟨hnew, hstate⟩))

/-- Every file that is met is new, to the state and among those met. -/
theorem Enters.met_new (h : workspace.Enters source state scope declarations steps final) :
    ((metPaths steps).map workspace.files.identity).Nodup ∧
      ∀ path ∈ metPaths steps, workspace.files.identity path ∉ state.processed := by
  induction h with
  | nil => simp [metPaths]
  | own _ _ ih => simpa using ih
  | passed happroach _ ih =>
    rw [(approachImport_passed happroach).2.1] at ih
    simpa using ih
  | failed happroach _ ih =>
    obtain ⟨-, hnew, -, -, hprocessed, -⟩ := approachImport_failed happroach
    obtain ⟨hnodup, hrest⟩ := ih
    simp only [hprocessed, List.mem_cons, not_or] at hrest
    simp only [metPaths_entered, metPaths_met, List.map_cons, List.nodup_cons, List.mem_map,
      List.forall_mem_cons]
    exact ⟨⟨fun ⟨path, hpath, e⟩ => (hrest path hpath).1 e, hnodup⟩, hnew,
      fun path hpath => (hrest path hpath).2⟩
  | opened happroach walk _ ihwalk ihnext =>
    obtain ⟨-, hnew, -, -, hprocessed, -⟩ := approachImport_opened happroach
    obtain ⟨hwalkNodup, hwalk⟩ := ihwalk
    obtain ⟨hnextNodup, hnext⟩ := ihnext
    rw [walk.processed_eq, hprocessed] at hnext
    simp only [hprocessed, List.mem_append, List.mem_reverse, List.mem_cons, not_or] at hwalk hnext
    simp only [metPaths_entered, metPaths_met, metPaths_append, List.map_cons, List.map_append,
      List.nodup_cons, List.nodup_append, List.mem_append, List.forall_mem_cons]
    refine ⟨⟨?_, hwalkNodup, hnextNodup, ?_⟩, hnew, fun path hpath =>
      hpath.elim (fun hpath => (hwalk path hpath).2) fun hpath => (hnext path hpath).2.2⟩
    · rintro (hmem | hmem)
      · obtain ⟨path, hpath, e⟩ := List.mem_map.1 hmem
        exact (hwalk path hpath).1 e
      · obtain ⟨path, hpath, e⟩ := List.mem_map.1 hmem
        exact (hnext path hpath).2.1 e
    · rintro _ hinner _ hmem rfl
      obtain ⟨path, hpath, e⟩ := List.mem_map.1 hmem
      exact (hnext path hpath).1 (e ▸ hinner)

theorem Enters.walkedPaths_nodup
    (h : workspace.Enters source state scope declarations steps final) :
    (walkedPaths steps).Nodup :=
  (walkedPaths_sublist_metPaths steps).nodup h.met_new.1.of_map

theorem Enters.content
    (h : workspace.Enters source state scope declarations steps final) {path : Path}
    {content : Option (List Declaration)} (hmet : .met path content ∈ steps) :
    content = workspace.files.declarationsAt path := by
  induction h with
  | nil => cases hmet
  | own _ _ ih => exact ih (by simpa using hmet)
  | passed _ _ ih => exact ih (by simpa using hmet)
  | failed happroach _ ih =>
    obtain ⟨-, -, hnone, -⟩ := approachImport_failed happroach
    simp only [List.mem_cons, reduceCtorEq, Step.met.injEq, false_or] at hmet
    obtain ⟨rfl, rfl⟩ | hmet := hmet
    · exact hnone.symm
    · exact ih hmet
  | opened happroach _ _ ihwalk ihnext =>
    obtain ⟨-, -, hsome, -⟩ := approachImport_opened happroach
    simp only [List.mem_cons, reduceCtorEq, Step.met.injEq, false_or, List.mem_append] at hmet
    obtain ⟨rfl, rfl⟩ | hmet | hmet := hmet
    · exact hsome.symm
    · exact ihwalk hmet
    · exact ihnext hmet

theorem Enters.entered_source
    (h : workspace.Enters source state scope declarations steps final) {source' : Source}
    {scope' : FileScope} {declaration : Declaration}
    (hentered : .entered source' scope' declaration ∈ steps) :
    source' = source ∨ ∃ path ∈ walkedPaths steps, source' = .ofPath path := by
  induction h with
  | nil => cases hentered
  | own _ _ ih =>
    simp only [List.mem_cons, Step.entered.injEq] at hentered
    obtain ⟨rfl, -⟩ | hentered := hentered
    · exact .inl rfl
    · exact ih hentered
  | passed _ _ ih =>
    simp only [List.mem_cons, Step.entered.injEq] at hentered
    obtain ⟨rfl, -⟩ | hentered := hentered
    · exact .inl rfl
    · exact ih hentered
  | failed _ _ ih =>
    simp only [List.mem_cons, Step.entered.injEq, reduceCtorEq, false_or] at hentered
    obtain ⟨rfl, -⟩ | hentered := hentered
    · exact .inl rfl
    · exact ih hentered
  | opened _ _ _ ihwalk ihnext =>
    simp only [List.mem_cons, Step.entered.injEq, reduceCtorEq, false_or,
      List.mem_append] at hentered
    simp only [walkedPaths_entered, walkedPaths_met_some, walkedPaths_append, List.mem_cons,
      List.mem_append, exists_eq_or_imp]
    obtain ⟨rfl, -⟩ | hentered | hentered := hentered
    · exact .inl rfl
    · obtain rfl | ⟨path, hpath, rfl⟩ := ihwalk hentered
      · exact .inr (.inl rfl)
      · exact .inr (.inr ⟨path, .inl hpath, rfl⟩)
    · obtain rfl | ⟨path, hpath, rfl⟩ := ihnext hentered
      · exact .inl rfl
      · exact .inr (.inr ⟨path, .inr hpath, rfl⟩)

theorem Enters.enteredFrom_eq_nil
    (h : workspace.Enters source state scope declarations steps final) {source' : Source}
    (hne : source' ≠ source) (hwalked : ∀ path ∈ walkedPaths steps, source' ≠ .ofPath path) :
    enteredFrom source' steps = [] := by
  refine List.eq_nil_iff_forall_not_mem.2 fun ⟨scope', declaration⟩ hmem => ?_
  obtain rfl | ⟨path, hpath, rfl⟩ := h.entered_source (mem_enteredFrom.1 hmem)
  · exact hne rfl
  · exact hwalked path hpath rfl

theorem Enters.own_entered
    (h : workspace.Enters source state scope declarations steps final)
    (hwalked : ∀ path ∈ walkedPaths steps, source ≠ .ofPath path) :
    enteredFrom source steps = scopedDeclarations scope declarations := by
  induction h with
  | nil => rfl
  | own _ _ ih =>
    rw [enteredFrom_entered_self, scopedDeclarations, ih (by simpa using hwalked)]
  | passed _ _ ih =>
    rw [enteredFrom_entered_self, scopedDeclarations, ih (by simpa using hwalked)]
    rfl
  | failed _ _ ih =>
    rw [enteredFrom_entered_self, enteredFrom_met, scopedDeclarations, ih (by simpa using hwalked)]
    rfl
  | opened _ walk _ _ ihnext =>
    simp only [walkedPaths_entered, walkedPaths_met_some, walkedPaths_append, List.forall_mem_cons,
      List.forall_mem_append] at hwalked
    obtain ⟨hlocation, hinner, hrest⟩ := hwalked
    rw [enteredFrom_entered_self, enteredFrom_met, enteredFrom_append, scopedDeclarations,
      walk.enteredFrom_eq_nil hlocation hinner, ihnext hrest, List.nil_append]
    rfl

theorem Enters.walked_entered
    (h : workspace.Enters source state scope declarations steps final)
    (hnodup : (walkedPaths steps).Nodup)
    (hwalked : ∀ path ∈ walkedPaths steps, source ≠ .ofPath path) {path : Path}
    (hpath : path ∈ walkedPaths steps) {content : List Declaration}
    (hcontent : workspace.files.declarationsAt path = some content) :
    enteredFrom (.ofPath path) steps = scopedDeclarations {} content := by
  induction h with
  | nil => cases hpath
  | own _ _ ih =>
    rw [enteredFrom_entered_of_ne (hwalked path hpath)]
    exact ih hnodup hwalked hpath
  | passed _ _ ih =>
    rw [enteredFrom_entered_of_ne (hwalked path hpath)]
    exact ih hnodup hwalked hpath
  | failed _ _ ih =>
    rw [enteredFrom_entered_of_ne (hwalked path hpath), enteredFrom_met]
    exact ih hnodup hwalked hpath
  | @opened _ _ _ _ _ _ _ location _ _ inner steps happroach walk next ihwalk ihnext =>
    rw [enteredFrom_entered_of_ne (hwalked path hpath), enteredFrom_met, enteredFrom_append]
    simp only [walkedPaths_entered, walkedPaths_met_some, walkedPaths_append]
      at hnodup hpath hwalked
    obtain ⟨hlocation, hrest⟩ := List.nodup_cons.1 hnodup
    obtain ⟨hinnerNodup, hstepsNodup, hdisjoint⟩ := List.nodup_append.1 hrest
    simp only [List.mem_append, not_or] at hlocation
    simp only [List.mem_cons, List.mem_append] at hpath
    simp only [List.forall_mem_cons, List.forall_mem_append] at hwalked
    obtain ⟨hsource, hinner, hsteps⟩ := hwalked
    obtain rfl | hpath | hpath := hpath
    · -- the file that is opened here
      obtain ⟨-, -, hsome, -⟩ := approachImport_opened happroach
      obtain rfl := Option.some.inj (hsome.symm.trans hcontent)
      rw [walk.own_entered fun path' hpath' e => hlocation.1 (Source.ofPath_inj e ▸ hpath'),
        next.enteredFrom_eq_nil hsource.symm
          fun path' hpath' e => hlocation.2 (Source.ofPath_inj e ▸ hpath'), List.append_nil]
    · -- a file below it
      have hnew : ∀ path' ∈ walkedPaths inner, Source.ofPath location ≠ .ofPath path' :=
        fun path' hpath' e => hlocation.1 (Source.ofPath_inj e ▸ hpath')
      rw [ihwalk hinnerNodup hnew hpath, next.enteredFrom_eq_nil (hinner path hpath).symm
          fun path' hpath' e => hdisjoint path hpath path' hpath' (Source.ofPath_inj e),
        List.append_nil]
    · -- a file that is walked later
      rw [ihnext hstepsNodup hsteps hpath, walk.enteredFrom_eq_nil
        (fun e => hlocation.2 (Source.ofPath_inj e ▸ hpath))
        fun path' hpath' e => hdisjoint path' hpath' path hpath (Source.ofPath_inj e).symm,
        List.nil_append]

end Enters

/-! ## The steps of calls -/

/-- The steps of calls on files, between the files met before and those met after: every file is met
once, and the files that are walked, and only they, are entered from the first declaration to the
last. -/
structure Walks (workspace : Workspace) (before : List FileSystem.Identity) (steps : List Step)
    (after : List FileSystem.Identity) : Prop where
  processed_eq : after = ((metPaths steps).map workspace.files.identity).reverse ++ before
  nodup : before.Nodup → after.Nodup
  content : ∀ {path : Path} {content : Option (List Declaration)},
    .met path content ∈ steps → content = workspace.files.declarationsAt path
  entered_source : ∀ {source : Source} {scope : FileScope} {declaration : Declaration},
    .entered source scope declaration ∈ steps → ∃ path ∈ walkedPaths steps, source = .ofPath path
  walked_entered : before.Nodup → ∀ path ∈ walkedPaths steps, ∀ content,
    workspace.files.declarationsAt path = some content →
      enteredFrom (.ofPath path) steps = scopedDeclarations {} content

section Walks

variable {before middle after : List FileSystem.Identity} {steps steps' : List Step}

theorem Walks.nil : workspace.Walks before [] before :=
  ⟨rfl, id, fun h => (List.not_mem_nil h).elim, fun h => (List.not_mem_nil h).elim,
    fun _ _ h => (List.not_mem_nil h).elim⟩

/-- The paths of files met are as many as the files. -/
theorem Walks.metPaths_nodup (h : workspace.Walks before steps after) (hnodup : before.Nodup) :
    ((metPaths steps).map workspace.files.identity).Nodup := by
  have hafter := h.nodup hnodup
  rw [h.processed_eq] at hafter
  exact List.nodup_reverse.1 (List.nodup_append.1 hafter).1

theorem Walks.identity_not_mem (h : workspace.Walks before steps after) (hnodup : before.Nodup)
    {path : Path} (hpath : path ∈ metPaths steps) : workspace.files.identity path ∉ before := by
  have hafter := h.nodup hnodup
  rw [h.processed_eq] at hafter
  exact fun hmem => (List.nodup_append.1 hafter).2.2 _
    (List.mem_reverse.2 (List.mem_map_of_mem hpath)) _ hmem rfl

theorem Walks.identity_mem (h : workspace.Walks before steps after) {path : Path}
    (hpath : path ∈ metPaths steps) : workspace.files.identity path ∈ after := by
  rw [h.processed_eq]
  exact List.mem_append_left _ (List.mem_reverse.2 (List.mem_map_of_mem hpath))

theorem Walks.enteredFrom_eq_nil (h : workspace.Walks before steps after) {path : Path}
    (hpath : path ∉ walkedPaths steps) : enteredFrom (.ofPath path) steps = [] := by
  refine List.eq_nil_iff_forall_not_mem.2 fun ⟨scope, declaration⟩ hmem => ?_
  obtain ⟨path', hpath', e⟩ := h.entered_source (mem_enteredFrom.1 hmem)
  exact hpath (Source.ofPath_inj e ▸ hpath')

theorem Walks.mem_walkedPaths_iff (h : workspace.Walks before steps after) {path : Path} :
    path ∈ walkedPaths steps ↔
      path ∈ metPaths steps ∧ (workspace.files.declarationsAt path).isSome := by
  rw [mem_walkedPaths, mem_metPaths]
  constructor
  · rintro ⟨declarations, hmet⟩
    exact ⟨⟨_, hmet⟩, by rw [← h.content hmet]; rfl⟩
  · rintro ⟨⟨content, hmet⟩, hsome⟩
    rw [← h.content hmet] at hsome
    obtain ⟨declarations, rfl⟩ := Option.isSome_iff_exists.1 hsome
    exact ⟨declarations, hmet⟩

theorem Walks.append (h : workspace.Walks before steps middle)
    (h' : workspace.Walks middle steps' after) :
    workspace.Walks before (steps ++ steps') after where
  processed_eq := by
    rw [h'.processed_eq, h.processed_eq, metPaths_append, List.map_append, List.reverse_append,
      List.append_assoc]
  nodup hnodup := h'.nodup (h.nodup hnodup)
  content hmet := (List.mem_append.1 hmet).elim h.content h'.content
  entered_source hentered := by
    rw [walkedPaths_append]
    obtain hentered | hentered := List.mem_append.1 hentered
    · obtain ⟨path, hpath, e⟩ := h.entered_source hentered
      exact ⟨path, List.mem_append_left _ hpath, e⟩
    · obtain ⟨path, hpath, e⟩ := h'.entered_source hentered
      exact ⟨path, List.mem_append_right _ hpath, e⟩
  walked_entered hnodup path hpath content hcontent := by
    -- No file is walked in both parts, as the second part meets only files new to it.
    have hdisjoint : ∀ {path : Path}, path ∈ walkedPaths steps → path ∉ walkedPaths steps' :=
      fun hpath hpath' => h'.identity_not_mem (h.nodup hnodup)
        ((walkedPaths_sublist_metPaths steps').subset hpath')
        (h.identity_mem ((walkedPaths_sublist_metPaths steps).subset hpath))
    rw [walkedPaths_append] at hpath
    rw [enteredFrom_append]
    obtain hpath | hpath := List.mem_append.1 hpath
    · rw [h.walked_entered hnodup path hpath content hcontent,
        h'.enteredFrom_eq_nil (hdisjoint hpath), List.append_nil]
    · rw [h.enteredFrom_eq_nil fun hpath' => hdisjoint hpath' hpath,
        h'.walked_entered (h.nodup hnodup) path hpath content hcontent, List.nil_append]

end Walks

theorem Extracts.walks {state : Extraction} {path : Path} {steps : List Step}
    {outcome : Except CatalogError Unit × Extraction}
    (h : workspace.Extracts state path steps outcome) :
    workspace.Walks state.processed steps outcome.2.processed := by
  cases h with
  | passed happroach =>
    obtain ⟨-, hprocessed, -⟩ := approachPath_passed happroach
    exact hprocessed ▸ .nil
  | failed happroach =>
    obtain ⟨rfl, hnew, hnone, -, hprocessed, -, -⟩ := approachPath_failed happroach
    rw [hprocessed]
    refine ⟨rfl, fun hnodup => List.nodup_cons.2 ⟨hnew, hnodup⟩, fun hmet => ?_,
      fun hentered => by simp at hentered, fun _ _ hpath => by cases hpath⟩
    obtain ⟨rfl, rfl⟩ := Step.met.inj (List.mem_singleton.1 hmet)
    exact hnone.symm
  | @opened state' final location declarations steps happroach walk =>
    obtain ⟨rfl, hnew, hsome, -, hprocessed, -⟩ := approachPath_opened happroach
    have hnodup' : state.processed.Nodup → state'.processed.Nodup :=
      fun hnodup => hprocessed ▸ List.nodup_cons.2 ⟨hnew, hnodup⟩
    have hlocation : ∀ path ∈ walkedPaths steps, Source.ofPath location ≠ .ofPath path := by
      intro path hpath e
      have hnew := walk.met_new.2 path ((walkedPaths_sublist_metPaths steps).subset hpath)
      rw [hprocessed, ← Source.ofPath_inj e] at hnew
      exact hnew List.mem_cons_self
    refine ⟨?_, fun hnodup => walk.processed_nodup (hnodup' hnodup), fun hmet => ?_,
      fun hentered => ?_, fun _ path hpath content hcontent => ?_⟩
    · simp [walk.processed_eq, hprocessed]
    · obtain hmet | hmet := List.mem_cons.1 hmet
      · obtain ⟨rfl, rfl⟩ := Step.met.inj hmet
        exact hsome.symm
      · exact walk.content hmet
    · obtain rfl | ⟨path, hpath, rfl⟩ := walk.entered_source (by simpa using hentered)
      · exact ⟨location, List.mem_cons_self, rfl⟩
      · exact ⟨path, List.mem_cons_of_mem _ hpath, rfl⟩
    · rw [enteredFrom_met]
      obtain rfl | hpath := List.mem_cons.1 hpath
      · obtain rfl := Option.some.inj (hsome.symm.trans hcontent)
        exact walk.own_entered hlocation
      · exact walk.walked_entered walk.walkedPaths_nodup hlocation hpath hcontent

theorem Runs.walks {state final : Extraction} {paths : List Path} {steps : List Step}
    (h : workspace.Runs state paths steps final) :
    workspace.Walks state.processed steps final.processed := by
  induction h with
  | nil => exact .nil
  | cons first _ ih => exact first.walks.append ih

end Workspace

end RpcCatalog
