import RpcCatalog.Proofs.Extraction.Registration

/-!
# Calls on files and texts

A run may be given files and texts in any order, and may go on after a call that fails.

* `Input`, `Workspace.extract`, `Workspace.extractInputs`: a call, and calls one after another
  whatever their outcomes.
* `Workspace.Calls`, `Workspace.CallsEach`: the courses of such calls. Each call has exactly one
  (`Workspace.exists_calls`, `Workspace.Calls.unique`).
* `Workspace.Calls.table_eq`, `Workspace.CallsEach.table_eq`: their tables are read off from their
  steps.
-/

set_option autoImplicit false

namespace RpcCatalog

/-- What a call extracts. -/
inductive Input where
  | file (path : Path)
  | text (name source : String)
  deriving DecidableEq

namespace Workspace

def extract (workspace : Workspace) (state : Extraction) :
    Input → Except CatalogError Unit × Extraction
  | .file path => workspace.extractPath state path
  | .text name source => workspace.extractSource state name source

/-- Extracts inputs one after another, those after a failure too: the outcome of each call, and the
state after the last. -/
def extractInputs (workspace : Workspace) (state : Extraction) :
    List Input → List (Except CatalogError Unit) × Extraction
  | [] => ([], state)
  | input :: inputs =>
    let (result, middle) := workspace.extract state input
    let (results, final) := workspace.extractInputs middle inputs
    (result :: results, final)

/-- Extracting a file or a text takes steps and has an outcome. -/
inductive Calls (workspace : Workspace) (state : Extraction) :
    Input → List Step → Except CatalogError Unit × Extraction → Prop where
  | file {path : Path} {steps : List Step} {outcome : Except CatalogError Unit × Extraction}
    (call : workspace.Extracts state path steps outcome) :
    Calls workspace state (.file path) steps outcome
  | malformed {name source : String} {cause : SyntaxError}
    (h : parseDeclarations source = .error cause) :
    Calls workspace state (.text name source) [] (.error (.malformed name cause), state)
  | wellFormed {name source : String} {declarations : List Declaration} {steps : List Step}
    {final : Extraction} (h : parseDeclarations source = .ok declarations)
    (walk : workspace.Enters ⟨name, none⟩ state {} declarations steps final) :
    Calls workspace state (.text name source) steps (.ok (), final)

/-- Extracting inputs one after another, those after a failure too, takes steps, has outcomes and
ends in a state. -/
inductive CallsEach (workspace : Workspace) : Extraction → List Input → List Step →
    List (Except CatalogError Unit) × Extraction → Prop where
  | nil {state : Extraction} : CallsEach workspace state [] [] ([], state)
  | cons {state middle final : Extraction} {input : Input} {inputs : List Input}
    {inner steps : List Step} {result : Except CatalogError Unit}
    {results : List (Except CatalogError Unit)}
    (first : workspace.Calls state input inner (result, middle))
    (next : workspace.CallsEach middle inputs steps (results, final)) :
    CallsEach workspace state (input :: inputs) (inner ++ steps) (result :: results, final)

variable {workspace : Workspace}

theorem exists_enters_extractSource (workspace : Workspace) (state : Extraction)
    {name source : String} {declarations : List Declaration}
    (h : parseDeclarations source = .ok declarations) :
    ∃ steps final, workspace.Enters ⟨name, none⟩ state {} declarations steps final ∧
      workspace.extractSource state name source = (.ok (), final) := by
  obtain ⟨steps, hsteps⟩ := exists_enters_followImport workspace.files.fileCount ⟨name, none⟩
    declarations state {} (unmet_le_fileCount state)
  refine ⟨steps, _, hsteps, ?_⟩
  rw [extractSource, h]
  rfl

theorem exists_calls (workspace : Workspace) (state : Extraction) (input : Input) :
    ∃ steps, workspace.Calls state input steps (workspace.extract state input) := by
  cases input with
  | file path =>
    obtain ⟨steps, hsteps⟩ := workspace.exists_extracts state path
    exact ⟨steps, .file hsteps⟩
  | text name source =>
    rw [extract]
    cases hparse : parseDeclarations source with
    | error cause =>
      refine ⟨[], ?_⟩
      rw [extractSource, hparse]
      exact .malformed hparse
    | ok declarations =>
      obtain ⟨steps, final, hsteps, heq⟩ := workspace.exists_enters_extractSource state hparse
      exact ⟨steps, heq ▸ .wellFormed hparse hsteps⟩

theorem exists_callsEach (workspace : Workspace) (state : Extraction) (inputs : List Input) :
    ∃ steps, workspace.CallsEach state inputs steps (workspace.extractInputs state inputs) := by
  induction inputs generalizing state with
  | nil => exact ⟨[], .nil⟩
  | cons input inputs ih =>
    obtain ⟨inner, hinner⟩ := workspace.exists_calls state input
    obtain ⟨steps, hsteps⟩ := ih (workspace.extract state input).2
    exact ⟨inner ++ steps, .cons hinner hsteps⟩

theorem Calls.unique {state : Extraction} {input : Input} {steps steps' : List Step}
    {outcome outcome' : Except CatalogError Unit × Extraction}
    (h : workspace.Calls state input steps outcome)
    (h' : workspace.Calls state input steps' outcome') : steps = steps' ∧ outcome = outcome' := by
  cases h with
  | file call =>
    cases h' with
    | file call' => exact call.unique call'
  | malformed hparse =>
    cases h' with
    | malformed hparse' =>
      rw [hparse] at hparse'
      cases hparse'
      exact ⟨rfl, rfl⟩
    | wellFormed hparse' _ => rw [hparse] at hparse'; cases hparse'
  | wellFormed hparse walk =>
    cases h' with
    | malformed hparse' => rw [hparse] at hparse'; cases hparse'
    | wellFormed hparse' walk' =>
      rw [hparse] at hparse'
      cases hparse'
      obtain ⟨rfl, rfl⟩ := walk.unique walk'
      exact ⟨rfl, rfl⟩

theorem Extracts.extractPath_eq {state : Extraction} {path : Path} {steps : List Step}
    {outcome : Except CatalogError Unit × Extraction}
    (h : workspace.Extracts state path steps outcome) :
    workspace.extractPath state path = outcome := by
  obtain ⟨steps', h'⟩ := workspace.exists_extracts state path
  exact (h'.unique h).2

theorem Calls.extract_eq {state : Extraction} {input : Input} {steps : List Step}
    {outcome : Except CatalogError Unit × Extraction}
    (h : workspace.Calls state input steps outcome) : workspace.extract state input = outcome := by
  obtain ⟨steps', h'⟩ := workspace.exists_calls state input
  exact (h'.unique h).2

theorem CallsEach.extractInputs_eq {state : Extraction} {inputs : List Input} {steps : List Step}
    {outcome : List (Except CatalogError Unit) × Extraction}
    (h : workspace.CallsEach state inputs steps outcome) :
    workspace.extractInputs state inputs = outcome := by
  induction h with
  | nil => rfl
  | cons first _ ih => simp only [extractInputs, first.extract_eq, ih]

theorem Calls.table_eq {state : Extraction} {input : Input} {steps : List Step}
    {outcome : Except CatalogError Unit × Extraction}
    (h : workspace.Calls state input steps outcome) :
    outcome.2.table = state.table.replay steps := by
  cases h with
  | file call => exact call.table_eq
  | malformed => rfl
  | wellFormed _ walk => exact walk.table_eq

theorem CallsEach.table_eq {state : Extraction} {inputs : List Input} {steps : List Step}
    {outcome : List (Except CatalogError Unit) × Extraction}
    (h : workspace.CallsEach state inputs steps outcome) :
    outcome.2.table = state.table.replay steps := by
  induction h with
  | nil => rfl
  | cons first _ ih => rw [ih, first.table_eq, SymbolTable.replay_append]

theorem extractEach_eq_extractInputs (workspace : Workspace) (state : Extraction)
    (paths : List Path) :
    workspace.extractEach state paths = workspace.extractInputs state (paths.map .file) := by
  induction paths generalizing state with
  | nil => rfl
  | cons path paths ih => simp only [extractEach, List.map_cons, extractInputs, extract, ih]

end Workspace

end RpcCatalog
