import RpcCatalog.Proofs.Extraction.Likeness

/-!
# Texts that fail

A text that is given to a run fails by its own syntax only, and before anything is done for it. What
goes wrong with its imports shows in the state, never in the result.

* `Workspace.lookupsIn`, `Workspace.setAsideIn`: the lookups that steps make, and the errors that
  they set aside.
* `Workspace.TakesEffect`: a state differs from another by what steps do, and by nothing else.
* `Workspace.Enters.takesEffect`: the state after a text differs so from the one before it.
* `Workspace.extractSource_atomic`: a text fails exactly if it is malformed, and then the state is
  the one before. Otherwise all its declarations are entered.
-/

set_option autoImplicit false

namespace RpcCatalog

/-- The state before any declaration of an imported file is entered. -/
def Approach.state : Approach Extraction → Extraction
  | .passed state => state
  | .failed state _ => state
  | .opened state _ _ => state

namespace Workspace

variable {workspace : Workspace}

/-! ## Effects of steps -/

/-- The lookup that an import makes, unless it is well known. -/
def lookupsOf (workspace : Workspace) (imported : String) : List (String × Option Path) :=
  if Path.impliedPackage imported = some wellKnownPackage then []
  else [(imported, workspace.location imported)]

/-- The lookups that steps make, the earliest first. -/
def lookupsIn (workspace : Workspace) (steps : List Step) : List (String × Option Path) :=
  steps.flatMap fun
    | .entered _ _ (.importing imported) => workspace.lookupsOf imported
    | _ => []

/-- The error that is set aside when a file is met, if it is malformed. -/
def setAsideAt (workspace : Workspace) (path : Path) :
    List (FileSystem.Identity × MalformedFile) :=
  match workspace.files.syntaxErrorAt path with
  | none => []
  | some cause => [(workspace.files.identity path, ⟨path.baseName, cause⟩)]

/-- The errors that steps set aside, the latest first. -/
def setAsideIn (workspace : Workspace) (steps : List Step) :
    List (FileSystem.Identity × MalformedFile) :=
  (metPaths steps).reverse.flatMap workspace.setAsideAt

/-- A state differs from another by what steps do: they put declarations into the table, meet files,
set the errors of malformed ones aside and look imports up. -/
structure TakesEffect (workspace : Workspace) (steps : List Step) (state final : Extraction) :
    Prop where
  table : final.table = state.table.replay steps
  processed :
    final.processed = ((metPaths steps).map workspace.files.identity).reverse ++ state.processed
  malformedImports : final.malformedImports = workspace.setAsideIn steps ++ state.malformedImports
  lookups : final.lookups = state.lookups ++ workspace.lookupsIn steps

/-! ## Effects of imports -/

theorem lookupsOf_of_leadsTo {imported : String} {location : Path}
    (h : workspace.LeadsTo imported location) :
    workspace.lookupsOf imported = [(imported, some location)] := by
  rw [lookupsOf, if_neg h.1, h.2]

theorem approachImport_lookups {state : Extraction} {imported : String}
    {approach : Approach Extraction} (h : workspace.approachImport state imported = approach) :
    approach.state.lookups = state.lookups ++ workspace.lookupsOf imported := by
  have hcase := workspace.approachesImport state imported
  rw [h] at hcase
  cases hcase with
  | wellKnown hknown =>
    rw [lookupsOf, if_pos hknown, List.append_nil]
    rfl
  | notFound hknown hnone =>
    rw [lookupsOf, if_neg hknown, hnone]
    rfl
  | known hleads _ | unreadable hleads _ _ | malformed hleads _ _ _ | opened hleads _ _ _ =>
    rw [lookupsOf_of_leadsTo hleads]
    rfl

theorem approachImport_failed_setAside {state state' : Extraction} {imported : String}
    {location : Path} (h : workspace.approachImport state imported = .failed state' location) :
    state'.malformedImports = workspace.setAsideAt location ++ state.malformedImports := by
  obtain ⟨hunreadable, heq⟩ | ⟨cause, hcause, heq⟩ := approachImport_failed_cases h
  · have hnone : workspace.files.syntaxErrorAt location = none := by
      refine Option.eq_none_iff_forall_ne_some.2 fun cause hcause => ?_
      obtain ⟨text, htext, -⟩ := FileSystem.syntaxErrorAt_eq_some_iff.1 hcause
      exact hunreadable text htext
    rw [setAsideAt, hnone, heq]
    rfl
  · rw [setAsideAt, hcause, heq]
    rfl

theorem setAsideAt_eq_nil {path : Path} {declarations : List Declaration}
    (h : workspace.files.declarationsAt path = some declarations) :
    workspace.setAsideAt path = [] := by
  obtain ⟨text, htext⟩ := FileSystem.readable_of_declarationsAt h
  rw [setAsideAt, (FileSystem.exists_declarationsAt_iff htext).1 ⟨_, h⟩]

/-! ## Effects of texts -/

section Enters

variable {source : Source} {state final : Extraction} {scope : FileScope}
  {declarations : List Declaration} {steps : List Step}

theorem Enters.lookups_eq
    (h : workspace.Enters source state scope declarations steps final) :
    final.lookups = state.lookups ++ workspace.lookupsIn steps := by
  induction h with
  | nil => exact (List.append_nil _).symm
  | @own _ _ _ _ declaration _ _ hown _ ih =>
    rw [ih, Extraction.declare_lookups]
    cases declaration with
    | importing path => exact absurd rfl (hown path)
    | _ => rfl
  | @passed _ _ state' _ _ _ _ _ happroach _ ih =>
    have hlookups : state'.lookups = _ := approachImport_lookups happroach
    rw [ih, hlookups, List.append_assoc]
    rfl
  | @failed _ _ state' _ _ _ _ _ _ happroach _ ih =>
    have hlookups : state'.lookups = _ := approachImport_lookups happroach
    rw [ih, hlookups, List.append_assoc]
    rfl
  | @opened _ _ state' _ _ _ _ _ _ _ inner steps happroach _ _ ihwalk ihnext =>
    have hlookups : state'.lookups = _ := approachImport_lookups happroach
    have hinner : workspace.lookupsIn (inner ++ steps) =
        workspace.lookupsIn inner ++ workspace.lookupsIn steps := List.flatMap_append
    rw [ihnext, ihwalk, hlookups, List.append_assoc, List.append_assoc, ← hinner]
    rfl

theorem Enters.malformedImports_eq
    (h : workspace.Enters source state scope declarations steps final) :
    final.malformedImports = workspace.setAsideIn steps ++ state.malformedImports := by
  unfold setAsideIn
  induction h with
  | nil => rfl
  | own _ _ ih => simpa using ih
  | passed happroach _ ih =>
    obtain ⟨-, -, hmalformed, -⟩ := approachImport_passed happroach
    simpa [hmalformed] using ih
  | failed happroach _ ih =>
    simp [ih, approachImport_failed_setAside happroach]
  | opened happroach _ _ ihwalk ihnext =>
    obtain ⟨-, -, hsome, -, -, hmalformed⟩ := approachImport_opened happroach
    simp [ihnext, ihwalk, hmalformed, setAsideAt_eq_nil hsome]

theorem Enters.takesEffect
    (h : workspace.Enters source state scope declarations steps final) :
    workspace.TakesEffect steps state final :=
  ⟨h.table_eq, h.processed_eq, h.malformedImports_eq, h.lookups_eq⟩

end Enters

theorem extractSource_of_malformed {state : Extraction} {file text : String} {cause : SyntaxError}
    (h : parseDeclarations text = .error cause) :
    workspace.extractSource state file text = (.error (.malformed file cause), state) := by
  rw [extractSource, h]

/-- A given text stands apart from the files that its imports lead to, as it is no file. -/
theorem exists_takesEffect_extractSource (workspace : Workspace) (state : Extraction)
    {file text : String} {declarations : List Declaration}
    (h : parseDeclarations text = .ok declarations) : ∃ steps final,
      workspace.extractSource state file text = (.ok (), final) ∧
      workspace.Enters ⟨file, none⟩ state {} declarations steps final ∧
      enteredFrom ⟨file, none⟩ steps = scopedDeclarations {} declarations ∧
      workspace.TakesEffect steps state final := by
  obtain ⟨steps, final, hsteps, hcall⟩ :=
    @exists_enters_extractSource workspace state file text declarations h
  have hnone : ∀ path ∈ walkedPaths steps, (⟨file, none⟩ : Source) ≠ .ofPath path :=
    fun path _ e => by cases congrArg Source.path e
  exact ⟨steps, final, hcall, hsteps, hsteps.own_entered hnone, hsteps.takesEffect⟩

/-- A text fails exactly if it is malformed. The error is that of the text under its name, and the
state is left as it was. If the text is well formed, all its declarations are entered, whatever its
imports lead to, and the state changes by the steps that this takes. -/
theorem extractSource_atomic (workspace : Workspace) (state : Extraction) (file text : String) :
    ((∃ e, (workspace.extractSource state file text).1 = .error e) ↔
      ∃ cause, parseDeclarations text = .error cause) ∧
    (∀ e, (workspace.extractSource state file text).1 = .error e →
      (∃ cause, parseDeclarations text = .error cause ∧ e = .malformed file cause) ∧
        (workspace.extractSource state file text).2 = state) ∧
    ∀ declarations, parseDeclarations text = .ok declarations → ∃ steps final,
      workspace.extractSource state file text = (.ok (), final) ∧
      workspace.Enters ⟨file, none⟩ state {} declarations steps final ∧
      enteredFrom ⟨file, none⟩ steps = scopedDeclarations {} declarations ∧
      workspace.TakesEffect steps state final := by
  cases hparse : parseDeclarations text with
  | error cause =>
    rw [extractSource_of_malformed hparse]
    refine ⟨⟨fun _ => ⟨cause, rfl⟩, fun _ => ⟨_, rfl⟩⟩, fun e he => ?_, fun _ hok => ?_⟩
    · cases he
      exact ⟨⟨cause, rfl, rfl⟩, rfl⟩
    · cases hok
  | ok declarations =>
    obtain ⟨steps, final, hcall, heffect⟩ :=
      @exists_takesEffect_extractSource workspace state file text declarations hparse
    refine ⟨⟨?_, ?_⟩, fun e he => ?_, fun _ hok => ?_⟩
    · rintro ⟨e, he⟩
      rw [hcall] at he
      cases he
    · rintro ⟨cause, hcause⟩
      cases hcause
    · rw [hcall] at he
      cases he
    · cases hok
      exact ⟨steps, final, hcall, heffect⟩

end Workspace

end RpcCatalog
