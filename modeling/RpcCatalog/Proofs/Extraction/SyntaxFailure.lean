import RpcCatalog.Proofs.Extraction.ImportClosure
import RpcCatalog.Proofs.Lists

/-!
# Malformed files

A malformed file may be met as an import first. The import does not fail the run, but the error is
set aside, and a later call on the file fails with it.

* `FileSystem.syntaxErrorAt`: the error of a malformed file.
* `Workspace.SetAside`, `Workspace.Remembers`: only errors of malformed files are set aside, and
  every malformed file among some given ones that was met has its error there. Steps keep both
  (`Workspace.Enters.setAside`, `Workspace.Enters.remembers`), and so do calls.
* `Workspace.FailsAt`: which of some calls fails first.
* `Workspace.failsAt_iff_first_malformed`: without leniency it is the call on the first malformed
  file, wherever imports lead to.
-/

set_option autoImplicit false

namespace RpcCatalog

/-! ## Syntax errors of files -/

namespace FileSystem

variable {files : FileSystem} {path path' : Path}

/-- The syntax error of the file at a path, if it can be read and is malformed. -/
def syntaxErrorAt (files : FileSystem) (path : Path) : Option SyntaxError :=
  match files.readText path with
  | .error _ => none
  | .ok text => (parseDeclarations text).error?

theorem syntaxErrorAt_eq_some_iff {cause : SyntaxError} :
    files.syntaxErrorAt path = some cause ↔
      ∃ text, files.readText path = .ok text ∧ parseDeclarations text = .error cause := by
  unfold syntaxErrorAt
  cases files.readText path with
  | error e => simp
  | ok text => simp [Except.error?_eq_some_iff]

/-- A malformed file is malformed wherever it can be read. -/
theorem syntaxErrorAt_of_readText {cause : SyntaxError} {text : String}
    (same : files.identity path = files.identity path')
    (h : files.syntaxErrorAt path = some cause) (h' : files.readText path' = .ok text) :
    files.syntaxErrorAt path' = some cause := by
  obtain ⟨text', htext', hparse⟩ := syntaxErrorAt_eq_some_iff.1 h
  obtain rfl := readText_unique same htext' h'
  exact syntaxErrorAt_eq_some_iff.2 ⟨text', h', hparse⟩

theorem exists_declarationsAt_iff {text : String} (h : files.readText path = .ok text) :
    (∃ declarations, files.declarationsAt path = some declarations) ↔
      files.syntaxErrorAt path = none := by
  simp only [declarationsAt, syntaxErrorAt, h]
  cases parseDeclarations text <;> simp [Except.toOption, Except.error?]

end FileSystem

namespace Workspace

variable {workspace : Workspace}

/-! ## What calls come to -/

/-- Whether an import fails because its file cannot be read or because it is malformed shows in what
is set aside. -/
theorem approachImport_failed_cases {state state' : Extraction} {imported : String}
    {location : Path} (h : workspace.approachImport state imported = .failed state' location) :
    ((∀ text, workspace.files.readText location ≠ .ok text) ∧
      state'.malformedImports = state.malformedImports) ∨
    ∃ cause, workspace.files.syntaxErrorAt location = some cause ∧
      state'.malformedImports =
        (workspace.files.identity location, ⟨Path.baseName location, cause⟩) ::
          state.malformedImports := by
  have hcase := workspace.approachesImport state imported
  rw [h] at hcase
  cases hcase with
  | unreadable _ _ hread =>
    refine .inl ⟨fun text htext => ?_, rfl⟩
    cases hread.symm.trans htext
  | malformed _ _ hread hparse =>
    exact .inr ⟨_, FileSystem.syntaxErrorAt_eq_some_iff.2 ⟨_, hread, hparse⟩, rfl⟩

/-- The result of a call on a file, which hangs on what was set aside, on what was met and on the
file. -/
theorem extractPath_result (workspace : Workspace) (state : Extraction) (path : Path) :
    (workspace.extractPath state path).1 =
      match state.malformedImports.lookup (workspace.files.identity path) with
      | some malformed =>
        if workspace.lenient then .ok () else .error (.malformed malformed.name malformed.cause)
      | none =>
        if workspace.files.identity path ∈ state.processed then .ok ()
        else
          match workspace.files.readText path with
          | .error e => .error (.unreadable e)
          | .ok _ =>
            match workspace.files.syntaxErrorAt path with
            | some cause =>
              if workspace.lenient then .ok () else .error (.malformed path.baseName cause)
            | none => .ok () := by
  unfold extractPath approachPath FileSystem.syntaxErrorAt
  dsimp only
  cases state.malformedImports.lookup (workspace.files.identity path) with
  | some malformed =>
    dsimp only
    unfold refuse
    split <;> rfl
  | none =>
    dsimp only
    by_cases hmet : workspace.files.identity path ∈ state.processed
    · rw [if_pos hmet, if_pos hmet]
    · rw [if_neg hmet, if_neg hmet]
      cases workspace.files.readText path with
      | error e => rfl
      | ok text =>
        dsimp only
        cases parseDeclarations text with
        | ok declarations => rfl
        | error e =>
          dsimp only [Except.error?]
          unfold refuse
          split <;> rfl

/-! ## What is set aside -/

/-- Only errors of malformed files are set aside, each under the identity of its file. -/
def SetAside (workspace : Workspace) (state : Extraction) : Prop :=
  ∀ entry ∈ state.malformedImports, ∃ path, workspace.files.identity path = entry.1 ∧
    entry.2.name = path.baseName ∧ workspace.files.syntaxErrorAt path = some entry.2.cause

/-- Of some files, those that were met and are malformed have an error set aside. -/
def Remembers (workspace : Workspace) (paths : List Path) (state : Extraction) : Prop :=
  ∀ path ∈ paths, (workspace.files.syntaxErrorAt path).isSome →
    workspace.files.identity path ∈ state.processed →
      (state.malformedImports.lookup (workspace.files.identity path)).isSome

/-- Where imports are located at some files, the files can be read there. -/
def FaithfulTo (workspace : Workspace) (paths : List Path) : Prop :=
  ∀ imported location, workspace.location imported = some location →
    ∀ path ∈ paths, workspace.files.identity path = workspace.files.identity location →
      ∃ text, workspace.files.readText location = .ok text

theorem SetAside.of_isFresh {state : Extraction} (h : state.IsFresh) :
    workspace.SetAside state := by
  simp [SetAside, h.malformedImports]

theorem Remembers.of_isFresh {paths : List Path} {state : Extraction} (h : state.IsFresh) :
    workspace.Remembers paths state := by
  simp [Remembers, h.processed]

theorem Faithful.faithfulTo (h : workspace.Faithful) {paths : List Path}
    (hreadable : ∀ path ∈ paths, ∃ text, workspace.files.readText path = .ok text) :
    workspace.FaithfulTo paths := by
  intro imported location hlocation path hpath hidentity
  obtain ⟨text, hread⟩ := hreadable path hpath
  exact h imported location path text hlocation hidentity hread

section Enters

variable {source : Source} {state final : Extraction} {scope : FileScope}
  {declarations : List Declaration} {steps : List Step}

theorem Enters.setAside (h : workspace.Enters source state scope declarations steps final)
    (hstate : workspace.SetAside state) : workspace.SetAside final := by
  induction h with
  | nil => exact hstate
  | own _ _ ih => exact ih (by simpa [SetAside] using hstate)
  | passed happroach _ ih =>
    obtain ⟨-, -, hmalformed, -⟩ := approachImport_passed happroach
    exact ih (by rwa [SetAside, hmalformed])
  | failed happroach _ ih =>
    refine ih fun entry hentry => ?_
    obtain ⟨-, hmalformed⟩ | ⟨cause, hcause, hmalformed⟩ := approachImport_failed_cases happroach
    · exact hstate entry (hmalformed ▸ hentry)
    · rw [hmalformed] at hentry
      obtain rfl | hentry := List.mem_cons.1 hentry
      · exact ⟨_, rfl, rfl, hcause⟩
      · exact hstate entry hentry
  | opened happroach _ _ ihwalk ihnext =>
    obtain ⟨-, -, -, -, -, hmalformed⟩ := approachImport_opened happroach
    exact ihnext (ihwalk (by rwa [SetAside, hmalformed]))

theorem Remembers.met {paths : List Path} {state' : Extraction} {location : Path}
    (hstate : workspace.Remembers paths state)
    (hdeclarations : workspace.files.declarationsAt location = some declarations)
    (hprocessed : state'.processed = workspace.files.identity location :: state.processed)
    (hmalformed : state'.malformedImports = state.malformedImports) :
    workspace.Remembers paths state' := by
  intro path hpath hsome hmet
  rw [hprocessed] at hmet
  rw [hmalformed]
  obtain hidentity | hmet := List.mem_cons.1 hmet
  -- The file just met has declarations, so none that is malformed shares its identity.
  · obtain ⟨text, htext⟩ := FileSystem.readable_of_declarationsAt hdeclarations
    obtain ⟨cause, hcause⟩ := Option.isSome_iff_exists.1 hsome
    have hnone := (FileSystem.exists_declarationsAt_iff htext).1 ⟨_, hdeclarations⟩
    rw [FileSystem.syntaxErrorAt_of_readText hidentity hcause htext] at hnone
    cases hnone
  · exact hstate path hpath hsome hmet

theorem Enters.remembers (h : workspace.Enters source state scope declarations steps final)
    {paths : List Path} (hfaithful : workspace.FaithfulTo paths)
    (hstate : workspace.Remembers paths state) : workspace.Remembers paths final := by
  induction h with
  | nil => exact hstate
  | own _ _ ih => exact ih (by simpa [Remembers] using hstate)
  | passed happroach _ ih =>
    obtain ⟨-, hprocessed, hmalformed, -⟩ := approachImport_passed happroach
    exact ih (by rwa [Remembers, hprocessed, hmalformed])
  | failed happroach _ ih =>
    obtain ⟨hleads, -, -, -, hprocessed, -⟩ := approachImport_failed happroach
    refine ih fun path hpath hsome hmet => ?_
    rw [hprocessed, List.mem_cons] at hmet
    obtain ⟨hunreadable, hmalformed⟩ | ⟨cause, -, hmalformed⟩ :=
      approachImport_failed_cases happroach
    -- Nothing is set aside for a file that cannot be read, but then it is none of the given ones.
    · rw [hmalformed]
      obtain hidentity | hmet := hmet
      · obtain ⟨text, htext⟩ := hfaithful _ _ hleads.2 path hpath hidentity
        exact absurd htext (hunreadable text)
      · exact hstate path hpath hsome hmet
    · rw [hmalformed, List.lookup_cons]
      split
      · rfl
      · next hne =>
        obtain hidentity | hmet := hmet
        · simp [hidentity] at hne
        · exact hstate path hpath hsome hmet
  | opened happroach _ _ ihwalk ihnext =>
    obtain ⟨-, -, hsome, -, hprocessed, hmalformed⟩ := approachImport_opened happroach
    exact ihnext (ihwalk (hstate.met hsome hprocessed hmalformed))

end Enters

section Extracts

variable {state : Extraction} {path : Path} {steps : List Step}
  {outcome : Except CatalogError Unit × Extraction}

theorem Extracts.setAside (h : workspace.Extracts state path steps outcome)
    (hstate : workspace.SetAside state) : workspace.SetAside outcome.2 := by
  cases h with
  | passed happroach =>
    obtain ⟨-, -, hmalformed, -⟩ := approachPath_passed happroach
    exact fun entry hentry => hstate entry (hmalformed entry hentry)
  | failed happroach =>
    obtain ⟨-, -, -, -, -, hmalformed, -⟩ := approachPath_failed happroach
    rwa [SetAside, hmalformed]
  | opened happroach walk =>
    obtain ⟨-, -, -, -, -, hmalformed⟩ := approachPath_opened happroach
    exact walk.setAside (by rwa [SetAside, hmalformed])

theorem Runs.setAside {final : Extraction} {paths : List Path}
    (h : workspace.Runs state paths steps final) (hstate : workspace.SetAside state) :
    workspace.SetAside final := by
  induction h with
  | nil => exact hstate
  | cons first _ ih => exact ih (first.setAside hstate)

/-- Without leniency a call that succeeds and walks nothing changes nothing. -/
theorem approachPath_ok_of_strict {outcome : Except CatalogError Unit × Extraction}
    (hstrict : workspace.lenient = false) (hok : outcome.1 = .ok ()) :
    (workspace.approachPath state path = .passed outcome →
      outcome.2.processed = state.processed ∧
        outcome.2.malformedImports = state.malformedImports) ∧
    ∀ location, workspace.approachPath state path ≠ .failed outcome location := by
  have hcase := workspace.approachesPath state path
  constructor
  · intro h
    rw [h] at hcase
    cases hcase with
    | setAside _ => simp [refuse, hstrict] at hok
    | known _ _ => exact ⟨rfl, rfl⟩
  · intro location h
    rw [h] at hcase
    cases hcase with
    | unreadable _ _ _ => cases hok
    | malformed _ _ _ _ => simp [refuse, hstrict] at hok

theorem Extracts.remembers (h : workspace.Extracts state path steps outcome)
    (hstrict : workspace.lenient = false) (hok : outcome.1 = .ok ()) {paths : List Path}
    (hfaithful : workspace.FaithfulTo paths) (hstate : workspace.Remembers paths state) :
    workspace.Remembers paths outcome.2 := by
  cases h with
  | passed happroach =>
    obtain ⟨hprocessed, hmalformed⟩ := (approachPath_ok_of_strict hstrict hok).1 happroach
    rwa [Remembers, hprocessed, hmalformed]
  | failed happroach => exact absurd happroach ((approachPath_ok_of_strict hstrict hok).2 _)
  | opened happroach walk =>
    obtain ⟨-, -, hsome, -, hprocessed, hmalformed⟩ := approachPath_opened happroach
    exact walk.remembers hfaithful (hstate.met hsome hprocessed hmalformed)

theorem Runs.remembers {final : Extraction} {listed paths : List Path}
    (h : workspace.Runs state listed steps final) (hstrict : workspace.lenient = false)
    (hfaithful : workspace.FaithfulTo paths) (hstate : workspace.Remembers paths state) :
    workspace.Remembers paths final := by
  induction h with
  | nil => exact hstate
  | cons first _ ih => exact ih (first.remembers hstrict rfl hfaithful hstate)

end Extracts

/-! ## Single calls -/

section Calls

variable {state : Extraction} {paths : List Path} {path : Path}

theorem SetAside.of_lookup (hstate : workspace.SetAside state) {malformed : MalformedFile}
    (hlookup : state.malformedImports.lookup (workspace.files.identity path) = some malformed) :
    ∃ path', workspace.files.identity path' = workspace.files.identity path ∧
      malformed.name = path'.baseName ∧
        workspace.files.syntaxErrorAt path' = some malformed.cause := by
  obtain ⟨front, back, hsplit, -⟩ := List.lookup_eq_some_iff.1 hlookup
  exact hstate (workspace.files.identity path, malformed)
    (hsplit ▸ List.mem_append_right _ List.mem_cons_self)

theorem SetAside.lookup_eq_none (hstate : workspace.SetAside state)
    (h : ∀ path', workspace.files.identity path' = workspace.files.identity path →
      workspace.files.syntaxErrorAt path' = none) :
    state.malformedImports.lookup (workspace.files.identity path) = none := by
  by_contra hne
  obtain ⟨malformed, hmalformed⟩ := Option.ne_none_iff_exists'.1 hne
  obtain ⟨path', hidentity, -, hcause⟩ := hstate.of_lookup hmalformed
  rw [h path' hidentity] at hcause
  cases hcause

theorem SetAside.extractPath_ok (hstate : workspace.SetAside state) {text : String}
    (hread : workspace.files.readText path = .ok text)
    (hnone : workspace.files.syntaxErrorAt path = none) :
    (workspace.extractPath state path).1 = .ok () := by
  have hlookup : state.malformedImports.lookup (workspace.files.identity path) = none := by
    refine hstate.lookup_eq_none fun path' hidentity => Option.eq_none_iff_forall_ne_some.2 ?_
    intro cause hcause
    rw [FileSystem.syntaxErrorAt_of_readText hidentity hcause hread] at hnone
    cases hnone
  rw [extractPath_result, hlookup, hread, hnone]
  exact ite_self _

/-- A call on a malformed file fails with the error of the file, whether the file was met or not. -/
theorem Remembers.extractPath_error (hstate : workspace.Remembers paths state)
    (hset : workspace.SetAside state) (hstrict : workspace.lenient = false) (hpath : path ∈ paths)
    {cause : SyntaxError} (hcause : workspace.files.syntaxErrorAt path = some cause) :
    ∃ path', workspace.files.identity path' = workspace.files.identity path ∧
      (workspace.extractPath state path).1 = .error (.malformed path'.baseName cause) := by
  obtain ⟨text, hread, -⟩ := FileSystem.syntaxErrorAt_eq_some_iff.1 hcause
  rw [extractPath_result, hstrict, hread, hcause]
  cases hlookup : state.malformedImports.lookup (workspace.files.identity path) with
  | some malformed =>
    obtain ⟨path', hidentity, hname, hcause'⟩ := hset.of_lookup hlookup
    have hsame := FileSystem.syntaxErrorAt_of_readText hidentity hcause' hread
    obtain rfl : malformed.cause = cause := Option.some.inj (hsame.symm.trans hcause)
    exact ⟨path', hidentity, hname ▸ rfl⟩
  | none =>
    have hnew : workspace.files.identity path ∉ state.processed := by
      intro hmet
      have hsome := hstate path hpath (hcause ▸ rfl) hmet
      rw [hlookup] at hsome
      cases hsome
    exact ⟨path, rfl, if_neg hnew⟩

end Calls

/-! ## The call that fails -/

/-- The calls on some files succeed, one after another, and the call on a further file fails. -/
def FailsAt (workspace : Workspace) (state : Extraction) (front : List Path) (path : Path)
    (e : CatalogError) : Prop :=
  ∃ middle, workspace.extractAll state front = (.ok (), middle) ∧
    (workspace.extractPath (middle.report [.fileStarted path.baseName]) path).1 = .error e

section FailsAt

variable {state : Extraction} {paths : List Path}

theorem extractAll_eq_error_iff {e : CatalogError} :
    (workspace.extractAll state paths).1 = .error e ↔
      ∃ front path back, paths = front ++ path :: back ∧ workspace.FailsAt state front path e := by
  induction paths generalizing state with
  | nil => simp [extractAll]
  | cons path paths ih =>
    rw [extractAll]
    cases hcall : workspace.extractPath (state.report [.fileStarted path.baseName]) path with
    | mk result middle =>
      cases result with
      | error e' =>
        dsimp only
        constructor
        · intro h
          cases h
          exact ⟨[], path, paths, rfl, state, rfl, by rw [hcall]⟩
        · rintro ⟨front, path', back, hsplit, final, hfront, hfail⟩
          cases front with
          | nil =>
            cases hsplit
            cases hfront
            rwa [hcall] at hfail
          | cons first front =>
            cases hsplit
            rw [extractAll, hcall] at hfront
            cases hfront
      | ok _ =>
        dsimp only
        rw [ih]
        constructor
        · rintro ⟨front, path', back, rfl, final, hfront, hfail⟩
          refine ⟨path :: front, path', back, rfl, final, ?_, hfail⟩
          rw [extractAll, hcall]
          exact hfront
        · rintro ⟨front, path', back, hsplit, final, hfront, hfail⟩
          cases front with
          | nil =>
            cases hsplit
            cases hfront
            rw [hcall] at hfail
            cases hfail
          | cons first front =>
            cases hsplit
            rw [extractAll, hcall] at hfront
            exact ⟨front, path', back, rfl, final, hfront, hfail⟩

theorem extractAll_ok_iff_of_strict (hstrict : workspace.lenient = false)
    (hfaithful : workspace.FaithfulTo paths) (hset : workspace.SetAside state)
    (hremembers : workspace.Remembers paths state) {listed : List Path} (hlisted : listed ⊆ paths)
    (hreadable : ∀ path ∈ listed, ∃ text, workspace.files.readText path = .ok text) :
    (∃ final, workspace.extractAll state listed = (.ok (), final)) ↔
      ∀ path ∈ listed, workspace.files.syntaxErrorAt path = none := by
  -- What is remembered speaks of all given files, and the induction goes over those that are left.
  induction listed generalizing state with
  | nil => simp [extractAll]
  | cons path listed ih =>
    obtain ⟨hpath, hlisted⟩ := List.cons_subset.1 hlisted
    obtain ⟨⟨text, hread⟩, hreadable⟩ := List.forall_mem_cons.1 hreadable
    rw [List.forall_mem_cons, extractAll]
    have hset' : workspace.SetAside (state.report [.fileStarted path.baseName]) := hset
    have hremembers' : workspace.Remembers paths (state.report [.fileStarted path.baseName]) :=
      hremembers
    obtain ⟨steps, hsteps⟩ :=
      workspace.exists_extracts (state.report [.fileStarted path.baseName]) path
    cases hcause : workspace.files.syntaxErrorAt path with
    | none =>
      have hok := hset'.extractPath_ok hread hcause
      have hrest := ih (hsteps.setAside hset') (hsteps.remembers hstrict hok hfaithful hremembers')
        hlisted hreadable
      rw [← Prod.eta (workspace.extractPath _ path), hok]
      simpa using hrest
    | some cause =>
      obtain ⟨path', -, herror⟩ := hremembers'.extractPath_error hset' hstrict hpath hcause
      rw [← Prod.eta (workspace.extractPath _ path), herror]
      simp

theorem setAside_and_remembers_of_extractAll (hfresh : state.IsFresh)
    (hstrict : workspace.lenient = false) (hfaithful : workspace.FaithfulTo paths)
    {front : List Path} {middle : Extraction}
    (h : workspace.extractAll state front = (.ok (), middle)) (events : List Event) :
    workspace.SetAside (middle.report events) ∧
      workspace.Remembers paths (middle.report events) := by
  obtain ⟨steps, hruns⟩ := workspace.exists_runs_extractAll h
  exact ⟨hruns.setAside (.of_isFresh hfresh),
    hruns.remembers hstrict hfaithful (.of_isFresh hfresh)⟩

theorem FailsAt.malformed {front : List Path} {path : Path} {e : CatalogError}
    (h : workspace.FailsAt state front path e) (hfresh : state.IsFresh)
    (hstrict : workspace.lenient = false) (hfaithful : workspace.FaithfulTo paths)
    (hpath : path ∈ paths) {cause : SyntaxError}
    (hcause : workspace.files.syntaxErrorAt path = some cause) :
    ∃ path', workspace.files.identity path' = workspace.files.identity path ∧
      e = .malformed path'.baseName cause := by
  obtain ⟨middle, hmiddle, hfail⟩ := h
  obtain ⟨hset, hremembers⟩ :=
    setAside_and_remembers_of_extractAll hfresh hstrict hfaithful hmiddle _
  obtain ⟨path', hidentity, herror⟩ := hremembers.extractPath_error hset hstrict hpath hcause
  exact ⟨path', hidentity, Except.error.inj (hfail.symm.trans herror)⟩

theorem failsAt_iff_of_strict (hfresh : state.IsFresh) (hstrict : workspace.lenient = false)
    (hfaithful : workspace.FaithfulTo paths)
    (hreadable : ∀ path ∈ paths, ∃ text, workspace.files.readText path = .ok text)
    {front back : List Path} {path : Path} (hsplit : paths = front ++ path :: back) :
    (∃ e, workspace.FailsAt state front path e) ↔
      (∀ earlier ∈ front, workspace.files.syntaxErrorAt earlier = none) ∧
        (workspace.files.syntaxErrorAt path).isSome := by
  have hfront : front ⊆ paths := hsplit ▸ List.subset_append_left front _
  have hpath : path ∈ paths := hsplit ▸ List.mem_append_right front List.mem_cons_self
  have hiff := extractAll_ok_iff_of_strict hstrict hfaithful (.of_isFresh hfresh)
    (.of_isFresh hfresh) hfront fun earlier hearlier => hreadable earlier (hfront hearlier)
  constructor
  · rintro ⟨e, middle, hmiddle, hfail⟩
    refine ⟨hiff.1 ⟨middle, hmiddle⟩, ?_⟩
    by_contra hnone
    obtain ⟨hset, -⟩ := setAside_and_remembers_of_extractAll hfresh hstrict hfaithful hmiddle _
    obtain ⟨text, hread⟩ := hreadable path hpath
    rw [hset.extractPath_ok hread (Option.not_isSome_iff_eq_none.1 hnone)] at hfail
    cases hfail
  · rintro ⟨hnone, hsome⟩
    obtain ⟨middle, hmiddle⟩ := hiff.2 hnone
    obtain ⟨hset, hremembers⟩ :=
      setAside_and_remembers_of_extractAll hfresh hstrict hfaithful hmiddle _
    obtain ⟨cause, hcause⟩ := Option.isSome_iff_exists.1 hsome
    obtain ⟨path', -, herror⟩ := hremembers.extractPath_error hset hstrict hpath hcause
    exact ⟨_, middle, hmiddle, herror⟩

end FailsAt

/-- Without leniency, and where imports are located so that the given files can be read there, calls
on files that can be read fail exactly if one of the files is malformed. The call that fails is the
one on the first malformed file, whether an import met it before or not; it fails with the syntax
error of that file. Where imports are located makes no difference. -/
theorem failsAt_iff_first_malformed (workspace : Workspace) (table : SymbolTable)
    (paths : List Path) (hstrict : workspace.lenient = false)
    (hreadable : ∀ path ∈ paths, ∃ text, workspace.files.readText path = .ok text)
    (hfaithful : workspace.FaithfulTo paths) :
    ((∃ e, (workspace.extractAll { table } paths).1 = .error e) ↔
      ∃ path ∈ paths, (workspace.files.syntaxErrorAt path).isSome) ∧
    (∀ e, (workspace.extractAll { table } paths).1 = .error e ↔
      ∃ front path back, paths = front ++ path :: back ∧
        workspace.FailsAt { table } front path e) ∧
    ∀ front path back, paths = front ++ path :: back →
      ((∃ e, workspace.FailsAt { table } front path e) ↔
        (∀ earlier ∈ front, workspace.files.syntaxErrorAt earlier = none) ∧
          (workspace.files.syntaxErrorAt path).isSome) ∧
      (∀ e, workspace.FailsAt { table } front path e →
        ∃ path' cause, workspace.files.identity path' = workspace.files.identity path ∧
          workspace.files.syntaxErrorAt path = some cause ∧
            e = .malformed path'.baseName cause) ∧
      ∀ location, ({ workspace with location } : Workspace).FaithfulTo paths →
        ((∃ e, ({ workspace with location } : Workspace).FailsAt { table } front path e) ↔
          ∃ e, workspace.FailsAt { table } front path e) := by
  have hfresh : Extraction.IsFresh { table } := ⟨rfl, rfl⟩
  refine ⟨?_, fun e => extractAll_eq_error_iff, fun front path back hsplit => ?_⟩
  · have hiff := extractAll_ok_iff_of_strict hstrict hfaithful (.of_isFresh hfresh)
      (.of_isFresh hfresh) (List.Subset.refl paths) hreadable
    cases hresult : workspace.extractAll { table } paths with
    | mk result final =>
      rw [hresult] at hiff
      cases result with
      | ok _ =>
        have hall := hiff.1 ⟨final, rfl⟩
        simp +contextual [hall]
      | error e =>
        simp only [Prod.mk.injEq, reduceCtorEq, false_and, exists_false, false_iff, not_forall]
          at hiff
        obtain ⟨path, hpath, hsome⟩ := hiff
        exact ⟨fun _ => ⟨path, hpath, Option.isSome_iff_ne_none.2 hsome⟩, fun _ => ⟨e, rfl⟩⟩
  · have hiff := failsAt_iff_of_strict hfresh hstrict hfaithful hreadable hsplit
    refine ⟨hiff, fun e hfail => ?_, fun location hlocation => ?_⟩
    · obtain ⟨cause, hcause⟩ := Option.isSome_iff_exists.1 (hiff.1 ⟨e, hfail⟩).2
      have hpath : path ∈ paths := hsplit ▸ List.mem_append_right front List.mem_cons_self
      obtain ⟨path', hidentity, rfl⟩ := hfail.malformed hfresh hstrict hfaithful hpath hcause
      exact ⟨path', cause, hidentity, hcause, rfl⟩
    · rw [hiff]
      exact @failsAt_iff_of_strict { workspace with location } _ _ hfresh hstrict hlocation
        hreadable _ _ _ hsplit

/-- Two files that import each other, and a malformed one that they lead to. -/
def tangledFiles : FileSystem where
  rootEntries :=
    [("a.proto", .file "import \"c.proto\";".toUTF8),
      ("b.proto", .file "message \x7b".toUTF8),
      ("c.proto", .file "import \"a.proto\"; import \"b.proto\";".toUTF8)]
  workingDirectory := []

def tangled : Workspace where
  files := tangledFiles
  location := tangledFiles.locateImport ["/"]

theorem tangled_failsAt :
    tangled.lenient = false ∧
    (∀ path ∈ (["/a.proto", "/b.proto"] : List Path),
      ∃ text, tangled.files.readText path = .ok text) ∧
    tangled.FaithfulTo ["/a.proto", "/b.proto"] ∧
    ∃ e, tangled.FailsAt { table := .empty } ["/a.proto"] "/b.proto" e := by
  have hreadable : ∀ path ∈ (["/a.proto", "/b.proto"] : List Path),
      ∃ text, tangled.files.readText path = .ok text := by
    simp only [List.forall_mem_cons]
    exact ⟨⟨"import \"c.proto\";", by cbv⟩, ⟨"message \x7b", by cbv⟩, by simp⟩
  have hfaithful : tangled.FaithfulTo ["/a.proto", "/b.proto"] :=
    (locateImport_faithful rfl).faithfulTo hreadable
  have hwell : tangled.files.syntaxErrorAt "/a.proto" = none := by cbv
  have hmalformed : (tangled.files.syntaxErrorAt "/b.proto").isSome = true := by cbv
  obtain ⟨-, -, hcalls⟩ := failsAt_iff_first_malformed tangled .empty ["/a.proto", "/b.proto"] rfl
    hreadable hfaithful
  refine ⟨rfl, hreadable, hfaithful, ?_⟩
  exact (hcalls ["/a.proto"] "/b.proto" [] rfl).1.2 ⟨by simpa using hwell, hmalformed⟩

/-- An import is located at the path of a malformed file with a slash after it, where nothing can be
read. -/
def misleading : Workspace where
  files :=
    { rootEntries :=
        [("a.proto", .file "import \"x\";".toUTF8), ("b.proto", .file "message \x7b".toUTF8)]
      workingDirectory := [] }
  location _ := some "/b.proto/"

/-- A malformed file may be given, and calls without leniency succeed all the same, where an import
is located at it so that it cannot be read there. -/
theorem misleading_succeeds :
    misleading.lenient = false ∧
    (∀ path ∈ (["/a.proto", "/b.proto"] : List Path),
      ∃ text, misleading.files.readText path = .ok text) ∧
    (misleading.files.syntaxErrorAt "/b.proto").isSome ∧
    (misleading.extractAll { table := .empty } ["/a.proto", "/b.proto"]).1 = .ok () := by
  refine ⟨rfl, ?_, by cbv, by cbv⟩
  simp only [List.forall_mem_cons]
  exact ⟨⟨"import \"x\";", by cbv⟩, ⟨"message \x7b", by cbv⟩, by simp⟩

end Workspace

end RpcCatalog
