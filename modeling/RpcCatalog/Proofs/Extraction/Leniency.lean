import RpcCatalog.Proofs.Extraction.Likeness

/-!
# Lenient runs

A lenient run goes on at malformed files. What it makes of all other files is what a strict run
makes of them that is not given the malformed ones.

* `FileSystem.IsMalformed`: a file can be read and is malformed.
* `Workspace.CallsEach.without_malformed`: malformed files may be left out of a list of calls, and
  leniency be changed, and the other calls do the same.
* `Workspace.extractPath_withLenient`: leniency changes nothing about a call that succeeds without
  it.
* `Workspace.extractEach_lenient`: lenient runs in terms of strict ones.
-/

set_option autoImplicit false

namespace RpcCatalog

namespace FileSystem

variable {files : FileSystem} {path : Path}

/-- The file can be read, at some path that leads to it, and is malformed. -/
def IsMalformed (files : FileSystem) (file : FileSystem.Identity) : Prop :=
  ∃ path, files.identity path = file ∧ (files.syntaxErrorAt path).isSome

theorem IsMalformed.declarationsAt_eq_none (h : files.IsMalformed (files.identity path)) :
    files.declarationsAt path = none := by
  obtain ⟨path', hidentity, hsome⟩ := h
  obtain ⟨cause, hcause⟩ := Option.isSome_iff_exists.1 hsome
  refine Option.eq_none_iff_forall_ne_some.2 fun declarations hdeclarations => ?_
  obtain ⟨text, htext⟩ := readable_of_declarationsAt hdeclarations
  have hnone := (exists_declarationsAt_iff htext).1 ⟨declarations, hdeclarations⟩
  rw [syntaxErrorAt_of_readText hidentity hcause htext] at hnone
  cases hnone

/-- The path does not lead to a malformed file. -/
def IsSound (files : FileSystem) (path : Path) : Prop := ¬files.IsMalformed (files.identity path)

theorem IsSound.syntaxErrorAt_eq_none (h : files.IsSound path) {path' : Path}
    (hidentity : files.identity path' = files.identity path) :
    files.syntaxErrorAt path' = none :=
  Option.not_isSome_iff_eq_none.1 fun hsome => h ⟨path', hidentity, hsome⟩

/-- Where a file is found, it shows there whether it is malformed. -/
theorem isMalformed_iff_of_isFile (hfile : files.isFile path) :
    files.IsMalformed (files.identity path) ↔ (files.syntaxErrorAt path).isSome := by
  refine ⟨?_, fun hsome => ⟨path, rfl, hsome⟩⟩
  rintro ⟨path', hidentity, hsome⟩
  obtain ⟨cause, hcause⟩ := Option.isSome_iff_exists.1 hsome
  obtain ⟨text, htext, -⟩ := syntaxErrorAt_eq_some_iff.1 hcause
  rw [syntaxErrorAt_of_readText hidentity hcause (readText_of_isFile hidentity htext hfile)]
  rfl

end FileSystem

namespace Workspace

variable {workspace : Workspace} {state state' : Extraction} {path : Path} {paths : List Path}
  {steps : List Step}

theorem barren_isMalformed (workspace : Workspace) :
    workspace.Barren workspace.files.IsMalformed :=
  fun _ h => h.declarationsAt_eq_none

/-! ## Without the malformed files -/

open Classical in
theorem CallsEach.without_malformed {results : List (Except CatalogError Unit)}
    {final : Extraction} (h : workspace.CallsEach state (paths.map .file) steps (results, final))
    (hset : workspace.SetAside state)
    (hstate : state.AlikeExcept workspace.files.IsMalformed state') (lenient : Bool) :
    ∃ steps' final',
      ({ workspace with lenient } : Workspace).CallsEach state'
        ((paths.filter workspace.files.IsSound).map .file) steps'
        (((paths.zip results).filter fun call => workspace.files.IsSound call.1).map Prod.snd,
          final') ∧
      final.AlikeExcept workspace.files.IsMalformed final' ∧
      enteredSteps steps = enteredSteps steps' := by
  induction paths generalizing state state' steps results with
  | nil =>
    cases h
    exact ⟨[], state', .nil, hstate, rfl⟩
  | cons path paths ih =>
    cases h with
    | @cons _ middle _ _ _ inner steps result results first next =>
      cases first with
      | file call =>
        by_cases hsound : workspace.files.IsSound path
        · obtain ⟨inner', ⟨result', middle'⟩, call', hmiddle, hinner⟩ :=
            call.alike workspace.barren_isMalformed hstate hsound lenient
          have hresult : result' = result := by
            have hlookup := hset.lookup_eq_none fun _ => hsound.syntaxErrorAt_eq_none
            have heq := extractPath_result_alike hstate hsound
              (.inr ⟨hlookup, hsound.syntaxErrorAt_eq_none rfl⟩ : lenient = _ ∨ _)
            rwa [call.extractPath_eq, call'.extractPath_eq] at heq
          obtain rfl := hresult
          obtain ⟨steps', final', next', hfinal, hsteps⟩ := ih next (call.setAside hset) hmiddle
          refine ⟨inner' ++ steps', final', ?_, hfinal, by simp [hinner, hsteps]⟩
          simpa [hsound] using CallsEach.cons (.file call') next'
        · obtain ⟨hmiddle, hinner⟩ :=
            call.of_excepted workspace.barren_isMalformed (not_not.1 hsound)
          obtain ⟨steps', final', next', hfinal, hsteps⟩ :=
            ih next (call.setAside hset) (hmiddle.symm.trans hstate)
          exact ⟨steps', final', by simpa [hsound] using next', hfinal, by simp [hinner, hsteps]⟩

/-! ## What calls come to -/

theorem extractPath_result_of_lenient (hlenient : workspace.lenient = true) (state : Extraction)
    (path : Path) :
    (workspace.extractPath state path).1 = .ok () ∨
      ∃ e, workspace.files.readText path = .error e ∧
        (workspace.extractPath state path).1 = .error (.unreadable e) := by
  rw [extractPath_result, hlenient]
  cases state.malformedImports.lookup (workspace.files.identity path) with
  | some malformed => exact .inl rfl
  | none =>
    dsimp only
    split
    · exact .inl rfl
    · cases workspace.files.readText path with
      | error e => exact .inr ⟨e, rfl, rfl⟩
      | ok text =>
        left
        dsimp only
        split <;> rfl

theorem forall₂_extractEach_of_lenient (hlenient : workspace.lenient = true) (state : Extraction)
    (paths : List Path) :
    List.Forall₂ (fun path result => result = .ok () ∨
      ∃ e, workspace.files.readText path = .error e ∧ result = .error (.unreadable e))
      paths (workspace.extractEach state paths).1 := by
  induction paths generalizing state with
  | nil => exact .nil
  | cons path paths ih => exact .cons (extractPath_result_of_lenient hlenient state path) (ih _)

theorem CallsEach.walks {outcome : List (Except CatalogError Unit) × Extraction}
    (h : workspace.CallsEach state (paths.map .file) steps outcome) :
    workspace.Walks state.processed steps outcome.2.processed := by
  induction paths generalizing state steps outcome with
  | nil =>
    cases h
    exact .nil
  | cons path paths ih =>
    cases h with
    | cons first next =>
      cases first with
      | file call =>
        have hnext := ih next
        exact call.walks.append hnext

theorem Walks.isSound_of_entered {before after : List FileSystem.Identity}
    (h : workspace.Walks before steps after) {source : Source} {scope : FileScope}
    {declaration : Declaration} (hentered : .entered source scope declaration ∈ steps) :
    ∃ path, source = .ofPath path ∧ workspace.files.IsSound path := by
  obtain ⟨path, hpath, hsource⟩ := h.entered_source hentered
  refine ⟨path, hsource, fun hmalformed => ?_⟩
  have hsome := (h.mem_walkedPaths_iff.1 hpath).2
  rw [hmalformed.declarationsAt_eq_none] at hsome
  cases hsome

/-! ## Calls that succeed without leniency -/

/-- Leniency makes a difference only to a call that fails without it. -/
theorem approachPath_withLenient (hstrict : workspace.lenient = false) (state : Extraction)
    (path : Path) (lenient : Bool) :
    ({ workspace with lenient } : Workspace).approachPath state path =
        workspace.approachPath state path ∨
      ∃ outcome met, (workspace.approachPath state path).Ends outcome met ∧
        outcome.1 ≠ .ok () := by
  have hrefuse : ∀ state malformed, (workspace.refuse state malformed).1 ≠ .ok () := by
    simp [refuse, hstrict]
  simp only [approachPath]
  cases state.malformedImports.lookup (workspace.files.identity path) with
  | some malformed => exact .inr ⟨_, _, .passed rfl, hrefuse _ _⟩
  | none =>
    dsimp only
    split
    · exact .inl rfl
    · cases workspace.files.readText path with
      | error e => exact .inl rfl
      | ok text =>
        dsimp only
        cases parseDeclarations text with
        | error e => exact .inr ⟨_, _, .failed rfl, hrefuse _ _⟩
        | ok declarations => exact .inl rfl

theorem Extracts.withLenient {outcome : Except CatalogError Unit × Extraction}
    (h : workspace.Extracts state path steps outcome) (hstrict : workspace.lenient = false)
    (hok : outcome.1 = .ok ()) (lenient : Bool) :
    ({ workspace with lenient } : Workspace).Extracts state path steps outcome := by
  obtain hsame | ⟨outcome', met, hends, hfails⟩ :=
    approachPath_withLenient hstrict state path lenient
  · cases h with
    | passed happroach => exact .passed (hsame.trans happroach)
    | failed happroach => exact .failed (hsame.trans happroach)
    | opened happroach walk => exact .opened (hsame.trans happroach) (walk.withLenient lenient)
  · obtain ⟨-, rfl⟩ := h.unique (.ended hends)
    exact absurd hok hfails

theorem extractPath_withLenient (hstrict : workspace.lenient = false)
    (hok : (workspace.extractPath state path).1 = .ok ()) (lenient : Bool) :
    ({ workspace with lenient } : Workspace).extractPath state path =
      workspace.extractPath state path := by
  obtain ⟨steps, hsteps⟩ := workspace.exists_extracts state path
  exact (hsteps.withLenient hstrict hok lenient).extractPath_eq

theorem extractEach_withLenient (hstrict : workspace.lenient = false)
    (hok : ∀ result ∈ (workspace.extractEach state paths).1, result = .ok ()) (lenient : Bool) :
    ({ workspace with lenient } : Workspace).extractEach state paths =
      workspace.extractEach state paths := by
  induction paths generalizing state with
  | nil => rfl
  | cons path paths ih =>
    simp only [extractEach, List.forall_mem_cons] at hok ⊢
    rw [extractPath_withLenient hstrict hok.1, ih hok.2]

/-! ## Lenient runs in terms of strict ones -/

open Classical in
/-- A lenient run leaves the table that a strict run over the files that are not malformed leaves,
and its calls on those files end in the same way. Each of its calls succeeds unless the file cannot
be read, none fails with a syntax error, and nothing of a malformed file is in the table. Where a
strict run succeeds throughout, the lenient run is the same. Among paths at which files are found,
the sound ones are those without a syntax error. -/
theorem extractEach_lenient (workspace : Workspace) (table : SymbolTable) (paths : List Path) :
    let lenient : Workspace := { workspace with lenient := true }
    let strict : Workspace := { workspace with lenient := false }
    let run := lenient.extractEach { table } paths
    let strictRun := strict.extractEach { table } (paths.filter workspace.files.IsSound)
    run.2.table = strictRun.2.table ∧
    ((paths.zip run.1).filter fun call => workspace.files.IsSound call.1).map Prod.snd =
      strictRun.1 ∧
    List.Forall₂ (fun path result => result = .ok () ∨
      ∃ e, workspace.files.readText path = .error e ∧ result = .error (.unreadable e))
      paths run.1 ∧
    (∃ steps, lenient.CallsEach { table } (paths.map .file) steps run ∧
      run.2.table = table.replay steps ∧
      ∀ source scope declaration, .entered source scope declaration ∈ steps →
        ∃ path, source = .ofPath path ∧ workspace.files.IsSound path) ∧
    ((∀ result ∈ (strict.extractEach { table } paths).1, result = .ok ()) →
      run = strict.extractEach { table } paths) ∧
    ((∀ path ∈ paths, workspace.files.isFile path) →
      paths.filter workspace.files.IsSound =
        paths.filter fun path => workspace.files.syntaxErrorAt path = none) := by
  intro lenient strict run strictRun
  obtain ⟨steps, hrun⟩ := lenient.exists_callsEach { table } (paths.map .file)
  rw [← extractEach_eq_extractInputs] at hrun
  have hset : lenient.SetAside { table } := .of_isFresh ⟨rfl, rfl⟩
  obtain ⟨steps', final', hstrict, hfinal, hsteps⟩ :=
    hrun.without_malformed hset (.refl _) false
  have heq : strictRun = (((paths.zip run.1).filter
      fun call => workspace.files.IsSound call.1).map Prod.snd, final') :=
    (strict.extractEach_eq_extractInputs ..).trans hstrict.extractInputs_eq
  have htable : run.2.table = strictRun.2.table :=
    calc run.2.table = table.replay steps := hrun.table_eq
      _ = table.replay steps' := SymbolTable.replay_congr _ hsteps
      _ = strictRun.2.table := by
        rw [heq]
        exact hstrict.table_eq.symm
  refine ⟨htable, by rw [heq], @forall₂_extractEach_of_lenient lenient rfl _ _,
    ⟨steps, hrun, hrun.table_eq, fun _ _ _ => hrun.walks.isSound_of_entered⟩,
    fun hok => @extractEach_withLenient strict _ _ rfl hok true, fun hfiles => ?_⟩
  refine List.filter_congr fun path hpath => ?_
  have hiff := FileSystem.isMalformed_iff_of_isFile (hfiles path hpath)
  simp [FileSystem.IsSound, hiff]

/-- A malformed file that two others lead to is given last. -/
theorem tangled_lenient :
    let lenient : Workspace := { tangled with lenient := true }
    let strict : Workspace := { tangled with lenient := false }
    (∀ path ∈ (["/a.proto", "/b.proto"] : List Path), tangled.files.isFile path) ∧
    (∀ result ∈ (strict.extractEach { table := .empty } ["/a.proto"]).1, result = .ok ()) ∧
    (lenient.extractEach { table := .empty } ["/a.proto", "/b.proto"]).2.table =
      (strict.extractEach { table := .empty } ["/a.proto"]).2.table ∧
    lenient.extractEach { table := .empty } ["/a.proto"] =
      strict.extractEach { table := .empty } ["/a.proto"] := by
  intro lenient strict
  have hfiles : ∀ path ∈ (["/a.proto", "/b.proto"] : List Path), tangled.files.isFile path := by
    simp only [List.forall_mem_cons]
    exact ⟨by cbv, by cbv, by simp⟩
  have hok : ∀ result ∈ (strict.extractEach { table := .empty } ["/a.proto"]).1,
      result = .ok () := by
    have hresults : (strict.extractEach { table := .empty } ["/a.proto"]).1 = [.ok ()] := by cbv
    simp [hresults]
  have hwell : tangled.files.syntaxErrorAt "/a.proto" = none := by cbv
  have hmalformed : (tangled.files.syntaxErrorAt "/b.proto").isSome = true := by cbv
  obtain ⟨htable, -, -, -, -, hsound⟩ :=
    extractEach_lenient tangled .empty ["/a.proto", "/b.proto"]
  obtain ⟨-, -, -, -, hsame, -⟩ := extractEach_lenient tangled .empty ["/a.proto"]
  rw [hsound hfiles, List.filter_cons_of_pos (by simpa using hwell), List.filter_cons_of_neg
    (by simpa [Option.isSome_iff_ne_none] using hmalformed), List.filter_nil] at htable
  exact ⟨hfiles, hok, htable, hsame hok⟩

end Workspace

end RpcCatalog
