import RpcCatalog.Proofs.Extraction.Likeness

/-!
# The same inputs again

A second run over the same inputs, on the table that the first one left, changes nothing in it.

* `SymbolTable.replay_replay`: steps put into a table a second time are absorbed, by the messages
  because the first registration counts, by the services because the last one does.
* `Workspace.CallsEach.alike`: no call looks at the table, so the second run takes the same steps.
* `Workspace.extractInputs_again`: the second run leaves the table as it is, with the results and
  the lookups of the first.
-/

set_option autoImplicit false

namespace RpcCatalog

theorem SymbolTable.replay_replay (table : SymbolTable) (steps : List Step) :
    (table.replay steps).replay steps = table.replay steps := by
  have htypes : ((table.replay steps).replay steps).types = (table.replay steps).types := by
    refine TypeRegistry.ext_find? (fun package => ?_) fun package name => ?_
    · simp only [isSome_package?_replay, or_assoc, or_self]
    · simp only [find?_types_replay, Option.or_assoc, Option.or_self]
  have hservices : ((table.replay steps).replay steps).services.services =
      (table.replay steps).services.services := by
    refine NameMap.ext_find? fun file => ?_
    have hfind := (table.replay steps).find?_replay steps file
    rw [table.find?_replay, ← Option.or_assoc, Option.or_self, ← table.find?_replay] at hfind
    exact hfind
  have hoverrides : ((table.replay steps).replay steps).overrides =
      (table.replay steps).overrides := replay_overrides _ _
  generalize (table.replay steps).replay steps = again at htypes hservices hoverrides ⊢
  obtain ⟨overrides, types, ⟨services⟩⟩ := again
  obtain rfl := htypes
  obtain rfl := hservices
  obtain rfl := hoverrides
  rfl

namespace Workspace

variable {workspace : Workspace} {state state' : Extraction} {steps : List Step}

theorem Calls.alike {input : Input} {outcome : Except CatalogError Unit × Extraction}
    (h : workspace.Calls state input steps outcome)
    (hstate : state.AlikeExcept (fun _ => False) state') :
    ∃ steps' final', workspace.Calls state' input steps' (outcome.1, final') ∧
      outcome.2.AlikeExcept (fun _ => False) final' ∧ enteredSteps steps = enteredSteps steps' := by
  have hbarren : workspace.Barren fun _ => False := fun _ hfalse => hfalse.elim
  cases h with
  | @file path _ _ call =>
    obtain ⟨steps', outcome', call', houtcome, hsteps⟩ :=
      call.alike hbarren hstate id workspace.lenient
    have hresult : outcome'.1 = outcome.1 := by
      rw [← call.extractPath_eq, ← call'.extractPath_eq]
      exact extractPath_result_alike hstate id (.inl rfl)
    obtain ⟨result', final'⟩ := outcome'
    obtain rfl := hresult
    exact ⟨steps', final', .file call', houtcome, hsteps⟩
  | malformed hparse => exact ⟨[], state', .malformed hparse, hstate, rfl⟩
  | wellFormed hparse walk =>
    obtain ⟨steps', final', walk', hfinal, hsteps⟩ := walk.alike hbarren hstate
    exact ⟨steps', final', .wellFormed hparse walk', hfinal, hsteps⟩

theorem CallsEach.alike {inputs : List Input}
    {outcome : List (Except CatalogError Unit) × Extraction}
    (h : workspace.CallsEach state inputs steps outcome)
    (hstate : state.AlikeExcept (fun _ => False) state') :
    ∃ steps' final', workspace.CallsEach state' inputs steps' (outcome.1, final') ∧
      outcome.2.AlikeExcept (fun _ => False) final' ∧ enteredSteps steps = enteredSteps steps' := by
  induction h generalizing state' with
  | nil => exact ⟨[], state', .nil, hstate, rfl⟩
  | cons first _ ih =>
    obtain ⟨inner', middle', first', hmiddle, hinner⟩ := first.alike hstate
    obtain ⟨steps', final', next', hfinal, hsteps⟩ := ih hmiddle
    exact ⟨inner' ++ steps', final', .cons first' next', hfinal, by simp [hinner, hsteps]⟩

/-- Extracting the same inputs a second time, on the table that the first time gave, leaves the
table as it is: every call ends as it did, and the same imports are looked up. -/
theorem extractInputs_again (workspace : Workspace) (table : SymbolTable) (inputs : List Input) :
    let first := workspace.extractInputs { table } inputs
    let second := workspace.extractInputs { table := first.2.table } inputs
    second.2.table = first.2.table ∧ second.1 = first.1 ∧ second.2.lookups = first.2.lookups := by
  intro first second
  obtain ⟨steps, hfirst⟩ := workspace.exists_callsEach { table } inputs
  have hfresh : Extraction.AlikeExcept (fun _ => False) { table } { table := first.2.table } :=
    ⟨fun _ _ => Iff.rfl, fun _ _ => rfl, rfl⟩
  obtain ⟨steps', final, hsecond, hfinal, hsteps⟩ := hfirst.alike hfresh
  have heq : second = (first.1, final) := hsecond.extractInputs_eq
  have htable : final.table = first.2.table :=
    calc final.table = first.2.table.replay steps' := hsecond.table_eq
      _ = first.2.table.replay steps := SymbolTable.replay_congr _ hsteps.symm
      _ = first.2.table := by rw [hfirst.table_eq, SymbolTable.replay_replay]
  rw [heq]
  exact ⟨htable, rfl, hfinal.lookups.symm⟩

end Workspace

end RpcCatalog
