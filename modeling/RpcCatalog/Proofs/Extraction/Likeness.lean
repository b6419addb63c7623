import RpcCatalog.Proofs.Extraction.Input
import RpcCatalog.Proofs.Extraction.SyntaxFailure

/-!
# Runs that are alike

What a run does next hangs on the files that it met and on the errors that were set aside, never on
the table. Two runs over one workspace that agree in this do the same.

* `Extraction.AlikeExcept`: two states agree, except in some files.
* `Workspace.Enters.alike`, `Workspace.Extracts.alike`: from such states the same declarations are
  entered, and the states stay so. The excepted files must have no declarations of their own.
* `enteredSteps`: the steps that such runs share. They decide the table
  (`SymbolTable.replay_enteredSteps`).
-/

set_option autoImplicit false

namespace RpcCatalog

/-! ## Declarations in steps -/

def Step.isEntered : Step → Bool
  | .met .. => false
  | .entered .. => true

/-- The steps that enter a declaration. -/
def enteredSteps (steps : List Step) : List Step := steps.filter Step.isEntered

@[simp] theorem enteredSteps_append (steps steps' : List Step) :
    enteredSteps (steps ++ steps') = enteredSteps steps ++ enteredSteps steps' :=
  List.filter_append ..

@[simp] theorem enteredSteps_met (path : Path) (content : Option (List Declaration))
    (steps : List Step) : enteredSteps (.met path content :: steps) = enteredSteps steps := rfl

@[simp] theorem enteredSteps_entered (source : Source) (scope : FileScope)
    (declaration : Declaration) (steps : List Step) :
    enteredSteps (.entered source scope declaration :: steps) =
      .entered source scope declaration :: enteredSteps steps := rfl

theorem SymbolTable.replay_enteredSteps (table : SymbolTable) (steps : List Step) :
    table.replay (enteredSteps steps) = table.replay steps := by
  induction steps generalizing table with
  | nil => rfl
  | cons step steps ih =>
    cases step with
    | met path content => exact ih table
    | entered source scope declaration => exact ih _

theorem SymbolTable.replay_congr (table : SymbolTable) {steps steps' : List Step}
    (h : enteredSteps steps = enteredSteps steps') :
    table.replay steps = table.replay steps' := by
  rw [← replay_enteredSteps, h, replay_enteredSteps]

/-! ## Alike states -/

namespace Extraction

/-- Two states of runs that made the same lookups, met the same files and set the same errors aside,
except for some files. -/
structure AlikeExcept (excepted : FileSystem.Identity → Prop) (state state' : Extraction) :
    Prop where
  processed : ∀ file, ¬excepted file → (file ∈ state.processed ↔ file ∈ state'.processed)
  malformedImports : ∀ file, ¬excepted file →
    state.malformedImports.lookup file = state'.malformedImports.lookup file
  lookups : state.lookups = state'.lookups

namespace AlikeExcept

variable {excepted : FileSystem.Identity → Prop} {state state' state'' : Extraction}

theorem refl (state : Extraction) : state.AlikeExcept excepted state :=
  ⟨fun _ _ => Iff.rfl, fun _ _ => rfl, rfl⟩

theorem symm (h : state.AlikeExcept excepted state') : state'.AlikeExcept excepted state :=
  ⟨fun file hfile => (h.processed file hfile).symm,
    fun file hfile => (h.malformedImports file hfile).symm, h.lookups.symm⟩

theorem trans (h : state.AlikeExcept excepted state') (h' : state'.AlikeExcept excepted state'') :
    state.AlikeExcept excepted state'' :=
  ⟨fun file hfile => (h.processed file hfile).trans (h'.processed file hfile),
    fun file hfile => (h.malformedImports file hfile).trans (h'.malformedImports file hfile),
    h.lookups.trans h'.lookups⟩

theorem report_right (h : state.AlikeExcept excepted state') (events : List Event) :
    state.AlikeExcept excepted (state'.report events) :=
  ⟨h.processed, h.malformedImports, h.lookups⟩

theorem report (h : state.AlikeExcept excepted state') (events events' : List Event) :
    (state.report events).AlikeExcept excepted (state'.report events') :=
  (h.report_right events').symm.report_right events |>.symm

theorem lookedUp (h : state.AlikeExcept excepted state') (imported : String)
    (location : Option Path) :
    (state.lookedUp imported location).AlikeExcept excepted (state'.lookedUp imported location) :=
  ⟨h.processed, h.malformedImports, congrArg (· ++ [(imported, location)]) h.lookups⟩

theorem meet (h : state.AlikeExcept excepted state') (file : FileSystem.Identity) :
    (state.meet file).AlikeExcept excepted (state'.meet file) :=
  ⟨fun other hother => by
    simp only [Extraction.meet, List.mem_cons, h.processed other hother], h.malformedImports,
    h.lookups⟩

theorem setAside (h : state.AlikeExcept excepted state') (file : FileSystem.Identity)
    (malformed : MalformedFile) :
    (state.setAside file malformed).AlikeExcept excepted (state'.setAside file malformed) :=
  ⟨h.processed, fun other hother => by
    simp only [Extraction.setAside, List.lookup_cons, h.malformedImports other hother], h.lookups⟩

theorem meet_right (h : state.AlikeExcept excepted state') {file : FileSystem.Identity}
    (hfile : excepted file) : state.AlikeExcept excepted (state'.meet file) := by
  refine ⟨fun other hother => ?_, h.malformedImports, h.lookups⟩
  have hne : other ≠ file := fun e => hother (e ▸ hfile)
  simp only [Extraction.meet, List.mem_cons, hne, false_or, h.processed other hother]

theorem setAside_right (h : state.AlikeExcept excepted state') {file : FileSystem.Identity}
    (hfile : excepted file) (malformed : MalformedFile) :
    state.AlikeExcept excepted (state'.setAside file malformed) := by
  refine ⟨h.processed, fun other hother => ?_, h.lookups⟩
  have hne : other ≠ file := fun e => hother (e ▸ hfile)
  simp only [Extraction.setAside, List.lookup_cons, beq_eq_false_iff_ne.2 hne,
    h.malformedImports other hother]

theorem takeUp_right (h : state.AlikeExcept excepted state') {file : FileSystem.Identity}
    (hfile : excepted file) :
    state.AlikeExcept excepted
      { state' with malformedImports := state'.malformedImports.filter (·.1 ≠ file) } := by
  refine ⟨h.processed, fun other hother => ?_, h.lookups⟩
  have hne : other ≠ file := fun e => hother (e ▸ hfile)
  rw [List.lookup_filter_ne, if_neg hne, h.malformedImports other hother]

/-- Both states without the errors of a file. -/
theorem takeUp (h : state.AlikeExcept excepted state') (file : FileSystem.Identity) :
    ({ state with malformedImports := state.malformedImports.filter (·.1 ≠ file) } :
      Extraction).AlikeExcept excepted
      { state' with malformedImports := state'.malformedImports.filter (·.1 ≠ file) } :=
  ⟨h.processed, fun other hother => by
    simp only [List.lookup_filter_ne, h.malformedImports other hother], h.lookups⟩

theorem declare (h : state.AlikeExcept excepted state') (file : String) (scope : FileScope)
    (declaration : Declaration) :
    (state.declare file scope declaration).AlikeExcept excepted
      (state'.declare file scope declaration) := by
  refine ⟨fun other hother => ?_, fun other hother => ?_, ?_⟩
  · rw [declare_processed, declare_processed, h.processed other hother]
  · rw [declare_malformedImports, declare_malformedImports, h.malformedImports other hother]
  · rw [declare_lookups, declare_lookups, h.lookups]

end AlikeExcept

end Extraction

/-! ## Alike approaches -/

/-- Nothing is opened: what comes of it, and the files met on the way. -/
inductive Approach.Ends {α : Type} (approach : Approach α) : α → List Step → Prop where
  | passed {outcome : α} (h : approach = .passed outcome) : Ends approach outcome []
  | failed {outcome : α} {location : Path} (h : approach = .failed outcome location) :
    Ends approach outcome [.met location none]

namespace Approach.Ends

variable {α : Type} {approach : Approach α} {outcome outcome' : α} {met met' : List Step}

theorem enteredSteps_eq (h : approach.Ends outcome met) : enteredSteps met = [] := by
  cases h <;> rfl

theorem ne_opened (h : approach.Ends outcome met) {state : Extraction} {location : Path}
    {declarations : List Declaration} : approach ≠ .opened state location declarations := by
  cases h with
  | passed h => simp [h]
  | failed h => simp [h]

theorem unique (h : approach.Ends outcome met) (h' : approach.Ends outcome' met') :
    outcome = outcome' := by
  cases h with
  | passed h =>
    cases h' with
    | passed h' => exact Approach.passed.inj (h.symm.trans h')
    | failed h' => cases h.symm.trans h'
  | failed h =>
    cases h' with
    | passed h' => cases h.symm.trans h'
    | failed h' => exact (Approach.failed.inj (h.symm.trans h')).1

end Approach.Ends

/-- Two approaches open the same declarations in alike states, or open nothing and come to alike
states. -/
inductive Approach.Alike {α : Type} (excepted : FileSystem.Identity → Prop)
    (view : α → Extraction) (approach approach' : Approach α) : Prop where
  | opened {next next' : Extraction} {location : Path} {declarations : List Declaration}
    (h : approach = .opened next location declarations)
    (h' : approach' = .opened next' location declarations)
    (alike : next.AlikeExcept excepted next')
  | ended {outcome outcome' : α} {met met' : List Step} (h : approach.Ends outcome met)
    (h' : approach'.Ends outcome' met')
    (alike : (view outcome).AlikeExcept excepted (view outcome'))

namespace Approach.Alike

variable {α : Type} {excepted : FileSystem.Identity → Prop} {view : α → Extraction}
  {approach approach' : Approach α}

theorem of_ends (h : approach.Alike excepted view approach') {outcome : α} {met : List Step}
    (hends : approach.Ends outcome met) :
    ∃ outcome' met', approach'.Ends outcome' met' ∧
      (view outcome).AlikeExcept excepted (view outcome') := by
  cases h with
  | opened hopened _ _ => exact absurd hopened hends.ne_opened
  | @ended _ outcome' _ met' h h' alike => exact ⟨outcome', met', h', h.unique hends ▸ alike⟩

theorem of_opened (h : approach.Alike excepted view approach') {next : Extraction}
    {location : Path} {declarations : List Declaration}
    (hopened : approach = .opened next location declarations) :
    ∃ next', approach' = .opened next' location declarations ∧
      next.AlikeExcept excepted next' := by
  cases h with
  | @opened _ next' _ _ h h' alike =>
    cases h.symm.trans hopened
    exact ⟨next', h', alike⟩
  | ended hends _ _ => exact absurd hopened hends.ne_opened

end Approach.Alike

namespace Workspace

variable {workspace : Workspace} {excepted : FileSystem.Identity → Prop} {state state' : Extraction}

/-- Files that hold no declarations, at whatever path they are read. -/
def Barren (workspace : Workspace) (files : FileSystem.Identity → Prop) : Prop :=
  ∀ path, files (workspace.files.identity path) → workspace.files.declarationsAt path = none

theorem approachImport_of_excepted {imported : String} {location : Path}
    (hbarren : workspace.Barren excepted) (hleads : workspace.LeadsTo imported location)
    (hlocation : excepted (workspace.files.identity location)) (state : Extraction) :
    ∃ next met, (workspace.approachImport state imported).Ends next met ∧
      (state.lookedUp imported (some location)).AlikeExcept excepted next := by
  have hlooked : (state.lookedUp imported (some location)).AlikeExcept excepted
    (state.lookedUp imported (some location)) := .refl _
  have hnext := hlooked.meet_right hlocation
  have hcase := workspace.approachesImport state imported
  generalize workspace.approachImport state imported = approach at hcase ⊢
  cases hcase with
  | wellKnown hknown => exact absurd hknown hleads.1
  | notFound _ hnone => cases hnone.symm.trans hleads.2
  | known hleads' _ =>
    obtain rfl := hleads.unique hleads'
    exact ⟨_, _, .passed rfl, hlooked.report_right _⟩
  | unreadable hleads' _ _ =>
    obtain rfl := hleads.unique hleads'
    exact ⟨_, _, .failed rfl, (hnext.report_right _).report_right _⟩
  | malformed hleads' _ _ _ =>
    obtain rfl := hleads.unique hleads'
    exact ⟨_, _, .failed rfl, ((hnext.report_right _).report_right _).setAside_right hlocation _⟩
  | opened hleads' _ hread hparse =>
    obtain rfl := hleads.unique hleads'
    have hnone := hbarren location hlocation
    rw [FileSystem.declarationsAt_of_readText hread, hparse] at hnone
    cases hnone

theorem approachImport_alike (hbarren : workspace.Barren excepted)
    (h : state.AlikeExcept excepted state') (imported : String) :
    (workspace.approachImport state imported).Alike excepted id
      (workspace.approachImport state' imported) := by
  by_cases hknown : Path.impliedPackage imported = some wellKnownPackage
  · simp only [approachImport, Bool.cond_decide, if_pos hknown]
    exact .ended (.passed rfl) (.passed rfl) (h.report _ _)
  · cases hlocation : workspace.location imported with
    | none =>
      simp only [approachImport, Bool.cond_decide, if_neg hknown, hlocation]
      exact .ended (.passed rfl) (.passed rfl) ((h.lookedUp imported none).report _ _)
    | some location =>
      have hlooked := h.lookedUp imported (some location)
      by_cases hexcepted : excepted (workspace.files.identity location)
      -- Whether an excepted file was met makes no difference: nothing is opened.
      · obtain ⟨next, met, hends, hnext⟩ :=
          approachImport_of_excepted hbarren ⟨hknown, hlocation⟩ hexcepted state
        obtain ⟨next', met', hends', hnext'⟩ :=
          approachImport_of_excepted hbarren ⟨hknown, hlocation⟩ hexcepted state'
        exact .ended hends hends' ((hnext.symm.trans hlooked).trans hnext')
      · have hmet := hlooked.processed _ hexcepted
        have hnext := (hlooked.meet (workspace.files.identity location)).report
          [.importFollowed imported location] [.importFollowed imported location]
        simp only [approachImport, Bool.cond_decide, if_neg hknown, hlocation, hmet]
        split
        · exact .ended (.passed rfl) (.passed rfl) (hlooked.report _ _)
        · cases workspace.files.readText location with
          | error e => exact .ended (.failed rfl) (.failed rfl) (hnext.report _ _)
          | ok text =>
            dsimp only
            cases parseDeclarations text with
            | error e => exact .ended (.failed rfl) (.failed rfl) ((hnext.report _ _).setAside _ _)
            | ok declarations => exact .opened rfl rfl hnext

/-! ## Alike walks -/

section Enters

variable {source : Source} {scope : FileScope} {declarations : List Declaration}
  {steps : List Step} {final : Extraction}

theorem Enters.ended {next : Extraction} {imported : String} {rest : List Declaration}
    {met : List Step} (h : (workspace.approachImport state imported).Ends next met)
    (walk : workspace.Enters source next scope rest steps final) :
    workspace.Enters source state scope (.importing imported :: rest)
      (.entered source scope (.importing imported) :: (met ++ steps)) final := by
  cases h with
  | passed h => exact .passed h walk
  | failed h => exact .failed h walk

/-- Leniency is for the files that are given; it makes no difference to imports. -/
theorem Enters.withLenient (h : workspace.Enters source state scope declarations steps final)
    (lenient : Bool) :
    ({ workspace with lenient } : Workspace).Enters source state scope declarations steps
      final := by
  induction h with
  | nil => exact .nil
  | own hown _ ih => exact .own hown ih
  | passed happroach _ ih => exact .passed happroach ih
  | failed happroach _ ih => exact .failed happroach ih
  | opened happroach _ _ ihwalk ihnext => exact .opened happroach ihwalk ihnext

theorem Enters.alike (h : workspace.Enters source state scope declarations steps final)
    (hbarren : workspace.Barren excepted) (hstate : state.AlikeExcept excepted state') :
    ∃ steps' final', workspace.Enters source state' scope declarations steps' final' ∧
      final.AlikeExcept excepted final' ∧ enteredSteps steps = enteredSteps steps' := by
  induction h generalizing state' with
  | nil => exact ⟨[], state', .nil, hstate, rfl⟩
  | own hown _ ih =>
    obtain ⟨steps', final', walk', hfinal, hsteps⟩ := ih (hstate.declare _ _ _)
    exact ⟨_, final', .own hown walk', hfinal, congrArg (_ :: ·) hsteps⟩
  | passed happroach _ ih =>
    obtain ⟨next', met', hends', hnext⟩ :=
      (approachImport_alike hbarren hstate _).of_ends (.passed happroach)
    obtain ⟨steps', final', walk', hfinal, hsteps⟩ := ih hnext
    exact ⟨_, final', .ended hends' walk', hfinal, by simp [hsteps, hends'.enteredSteps_eq]⟩
  | failed happroach _ ih =>
    obtain ⟨next', met', hends', hnext⟩ :=
      (approachImport_alike hbarren hstate _).of_ends (.failed happroach)
    obtain ⟨steps', final', walk', hfinal, hsteps⟩ := ih hnext
    exact ⟨_, final', .ended hends' walk', hfinal, by simp [hsteps, hends'.enteredSteps_eq]⟩
  | opened happroach _ _ ihwalk ihnext =>
    obtain ⟨next', hopened', hnext⟩ :=
      (approachImport_alike hbarren hstate _).of_opened happroach
    obtain ⟨inner', middle', walk', hmiddle, hinner⟩ := ihwalk hnext
    obtain ⟨steps', final', next', hfinal, hsteps⟩ := ihnext hmiddle
    exact ⟨_, final', .opened hopened' walk' next', hfinal, by simp [hinner, hsteps]⟩

end Enters

/-! ## Alike calls -/

section Extracts

variable {path : Path}

theorem refuse_right (h : state.AlikeExcept excepted state') (malformed : MalformedFile) :
    state.AlikeExcept excepted (workspace.refuse state' malformed).2 := by
  unfold refuse
  split
  · exact h.report_right _
  · exact h

theorem approachPath_of_excepted (hbarren : workspace.Barren excepted)
    (hpath : excepted (workspace.files.identity path)) (state : Extraction) :
    ∃ outcome met, (workspace.approachPath state path).Ends outcome met ∧
      state.AlikeExcept excepted outcome.2 := by
  have hsame : state.AlikeExcept excepted state := .refl state
  have hmet := hsame.meet_right hpath
  have hcase := workspace.approachesPath state path
  generalize workspace.approachPath state path = approach at hcase ⊢
  cases hcase with
  | setAside _ => exact ⟨_, _, .passed rfl, refuse_right (hsame.takeUp_right hpath) _⟩
  | known _ _ => exact ⟨_, _, .passed rfl, hsame.report_right _⟩
  | unreadable _ _ _ => exact ⟨_, _, .failed rfl, hmet⟩
  | malformed _ _ _ _ => exact ⟨_, _, .failed rfl, refuse_right hmet _⟩
  | opened _ _ hread hparse =>
    have hnone := hbarren path hpath
    rw [FileSystem.declarationsAt_of_readText hread, hparse] at hnone
    cases hnone

theorem approachPath_alike (h : state.AlikeExcept excepted state')
    (hpath : ¬excepted (workspace.files.identity path)) (lenient : Bool) :
    (workspace.approachPath state path).Alike excepted Prod.snd
      (({ workspace with lenient } : Workspace).approachPath state' path) := by
  have hrefuse : ∀ {state state' : Extraction}, state.AlikeExcept excepted state' →
      ∀ malformed, (workspace.refuse state malformed).2.AlikeExcept excepted
        (({ workspace with lenient } : Workspace).refuse state' malformed).2 :=
    fun h malformed => (refuse_right (refuse_right h malformed).symm malformed).symm
  simp only [approachPath, h.malformedImports _ hpath, h.processed _ hpath]
  cases state'.malformedImports.lookup (workspace.files.identity path) with
  | some malformed => exact .ended (.passed rfl) (.passed rfl) (hrefuse (h.takeUp _) _)
  | none =>
    dsimp only
    split
    · exact .ended (.passed rfl) (.passed rfl) (h.report _ _)
    · cases workspace.files.readText path with
      | error e => exact .ended (.failed rfl) (.failed rfl) (h.meet _)
      | ok text =>
        dsimp only
        cases parseDeclarations text with
        | error e => exact .ended (.failed rfl) (.failed rfl) (hrefuse (h.meet _) _)
        | ok declarations => exact .opened rfl rfl (h.meet _)

theorem Extracts.ended {steps : List Step} {outcome : Except CatalogError Unit × Extraction}
    (h : (workspace.approachPath state path).Ends outcome steps) :
    workspace.Extracts state path steps outcome := by
  cases h with
  | passed h => exact .passed h
  | failed h => exact .failed h

/-- A call on an excepted file makes no difference. -/
theorem Extracts.of_excepted {steps : List Step} {outcome : Except CatalogError Unit × Extraction}
    (h : workspace.Extracts state path steps outcome) (hbarren : workspace.Barren excepted)
    (hpath : excepted (workspace.files.identity path)) :
    state.AlikeExcept excepted outcome.2 ∧ enteredSteps steps = [] := by
  obtain ⟨outcome', met, hends, halike⟩ := approachPath_of_excepted hbarren hpath state
  obtain ⟨rfl, rfl⟩ := h.unique (.ended hends)
  exact ⟨halike, hends.enteredSteps_eq⟩

/-- A call on a file that is not excepted does the same from alike states, strict or lenient. -/
theorem Extracts.alike {steps : List Step} {outcome : Except CatalogError Unit × Extraction}
    (h : workspace.Extracts state path steps outcome) (hbarren : workspace.Barren excepted)
    (hstate : state.AlikeExcept excepted state')
    (hpath : ¬excepted (workspace.files.identity path)) (lenient : Bool) :
    ∃ steps' outcome',
      ({ workspace with lenient } : Workspace).Extracts state' path steps' outcome' ∧
        outcome.2.AlikeExcept excepted outcome'.2 ∧ enteredSteps steps = enteredSteps steps' := by
  have happroaches := approachPath_alike hstate hpath lenient
  cases h with
  | passed h =>
    obtain ⟨outcome', met', hends', houtcome⟩ := happroaches.of_ends (.passed h)
    exact ⟨met', outcome', .ended hends', houtcome, hends'.enteredSteps_eq.symm⟩
  | failed h =>
    obtain ⟨outcome', met', hends', houtcome⟩ := happroaches.of_ends (.failed h)
    exact ⟨met', outcome', .ended hends', houtcome, hends'.enteredSteps_eq.symm⟩
  | opened h walk =>
    obtain ⟨next', hopened', hnext⟩ := happroaches.of_opened h
    obtain ⟨steps', final', walk', hfinal, hsteps⟩ := walk.alike hbarren hnext
    exact ⟨_, _, .opened hopened' (walk'.withLenient lenient), hfinal, by simpa using hsteps⟩

/-- The result of a call hangs on what alike states agree in, if leniency makes no difference to
it. -/
theorem extractPath_result_alike (h : state.AlikeExcept excepted state')
    (hpath : ¬excepted (workspace.files.identity path)) {lenient : Bool}
    (hlenient : lenient = workspace.lenient ∨
      state.malformedImports.lookup (workspace.files.identity path) = none ∧
        workspace.files.syntaxErrorAt path = none) :
    (({ workspace with lenient } : Workspace).extractPath state' path).1 =
      (workspace.extractPath state path).1 := by
  rw [extractPath_result, extractPath_result, h.malformedImports _ hpath]
  simp only [h.processed _ hpath]
  obtain rfl | ⟨hlookup, hwell⟩ := hlenient
  · rfl
  · rw [← h.malformedImports _ hpath, hlookup, hwell]

end Extracts

end Workspace

end RpcCatalog
