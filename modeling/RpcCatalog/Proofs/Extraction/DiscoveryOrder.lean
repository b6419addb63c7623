import RpcCatalog.Proofs.Extraction.ImportClosure
import RpcCatalog.Proofs.Resolution

/-!
# The order of discovery

Calls on the same files in another order walk the files in another nesting and order. What is known
in the end is the same.

* `Workspace.Runs.entered_iff_reached`: what is entered in calls that succeed, told without their
  order.
* `SymbolTable.AgreesWith`: no two messages that are entered, and no entered message and one known
  before, give different entries for one name in one package.
* `Workspace.extractEach_perm`: the messages known after calls that succeed do not depend on the
  order of the files, and neither does which types can be resolved; where the messages agree, their
  entries do not depend on it either.
-/

set_option autoImplicit false

namespace RpcCatalog

/-- The same declarations are entered, each with the same said before it. -/
def EnterSame (steps steps' : List Step) : Prop :=
  ∀ scope declaration, (∃ source, .entered source scope declaration ∈ steps) ↔
    ∃ source, .entered source scope declaration ∈ steps'

theorem EnterSame.exists_iff {steps steps' : List Step} (h : EnterSame steps steps')
    {declaration : Declaration} {P : FileScope → Prop} :
    (∃ source scope, .entered source scope declaration ∈ steps ∧ P scope) ↔
      ∃ source scope, .entered source scope declaration ∈ steps' ∧ P scope := by
  constructor
  · rintro ⟨source, scope, hentered, hP⟩
    obtain ⟨source', hentered'⟩ := (h scope declaration).1 ⟨source, hentered⟩
    exact ⟨source', scope, hentered', hP⟩
  · rintro ⟨source, scope, hentered, hP⟩
    obtain ⟨source', hentered'⟩ := (h scope declaration).2 ⟨source, hentered⟩
    exact ⟨source', scope, hentered', hP⟩

/-- A message that is entered has the entry of a message known before, and of any other that is
entered under its name and package. -/
structure SymbolTable.AgreesWith (table : SymbolTable) (steps : List Step) : Prop where
  known : ∀ source scope name entry, .entered source scope (.message name) ∈ steps →
    table.types.find? scope.package name = some entry →
      entry = { outputPackage := scope.outputPackage, name }
  entered : ∀ source scope source' scope' name, .entered source scope (.message name) ∈ steps →
    .entered source' scope' (.message name) ∈ steps →
      scope.package.getD "" = scope'.package.getD "" →
        scope.outputPackage = scope'.outputPackage

namespace Workspace

variable {workspace : Workspace} {table : SymbolTable} {paths paths' : List Path}
  {steps steps' : List Step} {state state' final final' : Extraction}

/-! ## What is entered -/

theorem Runs.entered_iff_reached (h : workspace.Runs state paths steps final)
    (hfresh : state.IsFresh) (hfaithful : workspace.Faithful) {scope : FileScope}
    {declaration : Declaration} :
    (∃ source, .entered source scope declaration ∈ steps) ↔
      ∃ path declarations, workspace.Reached paths (fun _ => True) path ∧
        workspace.files.declarationsAt path = some declarations ∧
          (scope, declaration) ∈ scopedDeclarations {} declarations := by
  have hcloses := h.closesImports hfresh
  constructor
  · rintro ⟨source, hentered⟩
    obtain ⟨path, hpath, rfl⟩ := hcloses.entered_walked _ _ _ hentered
    obtain ⟨hmet, hsome⟩ := (hcloses.walked_iff path).1 hpath
    obtain ⟨declarations, hdeclarations⟩ := Option.isSome_iff_exists.1 hsome
    rw [← mem_enteredFrom, hcloses.walked_entered path hpath declarations hdeclarations] at hentered
    exact ⟨path, declarations,
      (hcloses.met_reached path hmet).mono (List.Subset.refl _) fun _ _ => trivial, hdeclarations,
      hentered⟩
  · rintro ⟨path, declarations, hreached, hdeclarations, hmem⟩
    -- The file may be walked at another path, where it has the same declarations.
    have hwalked := (h.walked_iff_reached hfresh hfaithful (workspace.files.identity path)).2
      ⟨path, hreached, rfl, hdeclarations ▸ rfl⟩
    obtain ⟨path', hpath', hidentity⟩ := List.mem_map.1 hwalked
    obtain ⟨declarations', hdeclarations'⟩ :=
      Option.isSome_iff_exists.1 ((hcloses.walked_iff path').1 hpath').2
    obtain rfl := workspace.files.declarationsAt_unique hidentity hdeclarations' hdeclarations
    rw [← hcloses.walked_entered path' hpath' declarations' hdeclarations', mem_enteredFrom] at hmem
    exact ⟨_, hmem⟩

theorem Runs.enterSame_of_perm (h : workspace.Runs state paths steps final)
    (h' : workspace.Runs state' paths' steps' final') (hfresh : state.IsFresh)
    (hfresh' : state'.IsFresh) (hfaithful : workspace.Faithful) (hperm : paths.Perm paths') :
    EnterSame steps steps' := by
  intro scope declaration
  rw [h.entered_iff_reached hfresh hfaithful, h'.entered_iff_reached hfresh' hfaithful]
  have hreached : ∀ path, workspace.Reached paths (fun _ => True) path ↔
      workspace.Reached paths' (fun _ => True) path := fun path =>
    ⟨fun hreached => hreached.mono hperm.subset fun _ h => h,
      fun hreached => hreached.mono hperm.symm.subset fun _ h => h⟩
  simp only [hreached]

end Workspace

/-! ## What is known then -/

namespace SymbolTable

variable {table : SymbolTable} {steps steps' : List Step}

theorem isSome_find?_replay_congr (h : EnterSame steps steps') (package : Option String)
    (name : String) :
    ((table.replay steps).types.find? package name).isSome =
      ((table.replay steps').types.find? package name).isSome := by
  rw [Bool.eq_iff_iff, isSome_find?_replay, isSome_find?_replay]
  exact or_congr_right h.exists_iff

theorem isSome_package?_replay_congr (h : EnterSame steps steps') (package : Option String) :
    ((table.replay steps).types.package? package).isSome =
      ((table.replay steps').types.package? package).isSome := by
  rw [Bool.eq_iff_iff, isSome_package?_replay, isSome_package?_replay]
  exact or_congr_right (exists_congr fun _ => h.exists_iff)

/-- Where the messages agree, an entry found is the one that any of the messages gives. -/
theorem AgreesWith.find?_eq (hagree : table.AgreesWith steps) {package : Option String}
    {name : String} {source : Source} {scope : FileScope}
    (hentered : .entered source scope (.message name) ∈ steps)
    (hpackage : scope.package.getD "" = package.getD "") :
    (table.replay steps).types.find? package name =
      some { outputPackage := scope.outputPackage, name } := by
  rw [find?_types_replay]
  cases hknown : table.types.find? package name with
  | some entry =>
    have hkey : table.types.find? scope.package name = some entry := by
      rw [← hknown, TypeRegistry.find?, TypeRegistry.find?, TypeRegistry.package?,
        TypeRegistry.package?, hpackage]
    rw [hagree.known source scope name entry hentered hkey]
    rfl
  | none =>
    -- The first entry counts, which may be that of another message; the two agree.
    have hmem : { outputPackage := scope.outputPackage, name } ∈ entriesUnder package name steps :=
      mem_entriesUnder.2 ⟨source, scope, hentered, hpackage, rfl⟩
    obtain ⟨entry, hhead⟩ := Option.isSome_iff_exists.1
      (List.isSome_head?.2 (List.ne_nil_of_mem hmem))
    obtain ⟨source', scope', hentered', hpackage', rfl⟩ :=
      mem_entriesUnder.1 (List.mem_of_mem_head? hhead)
    rw [hhead, Option.none_or,
      hagree.entered source' scope' source scope name hentered' hentered
        (hpackage'.trans hpackage.symm)]

theorem AgreesWith.congr (hagree : table.AgreesWith steps) (h : EnterSame steps steps') :
    table.AgreesWith steps' where
  known source scope name entry hentered := by
    obtain ⟨source', hentered'⟩ := (h scope _).2 ⟨source, hentered⟩
    exact hagree.known source' scope name entry hentered'
  entered source scope source' scope' name hentered hentered' := by
    obtain ⟨source₁, hentered₁⟩ := (h scope _).2 ⟨source, hentered⟩
    obtain ⟨source₂, hentered₂⟩ := (h scope' _).2 ⟨source', hentered'⟩
    exact hagree.entered source₁ scope source₂ scope' name hentered₁ hentered₂

theorem AgreesWith.types_eq (hagree : table.AgreesWith steps) (h : EnterSame steps steps') :
    (table.replay steps).types = (table.replay steps').types := by
  refine TypeRegistry.ext_find? (fun package => ?_) fun package name => ?_
  · rw [isSome_package?_replay_congr h]
  · by_cases hmessage : ∃ source scope, .entered source scope (.message name) ∈ steps ∧
        scope.package.getD "" = package.getD ""
    · obtain ⟨source, scope, hentered, hpackage⟩ := hmessage
      obtain ⟨source', hentered'⟩ := (h scope _).1 ⟨source, hentered⟩
      rw [hagree.find?_eq hentered hpackage, (hagree.congr h).find?_eq hentered' hpackage]
    · have hmessage' := h.exists_iff.not.1 hmessage
      rw [find?_types_replay, find?_types_replay, entriesUnder_eq_nil_iff.2 hmessage,
        entriesUnder_eq_nil_iff.2 hmessage']

/-- Steps that enter the same declarations leave the same types unresolved, for the same reasons. -/
theorem error?_resolveType_replay_congr (h : EnterSame steps steps') (reference : TypeReference) :
    ((table.replay steps).resolveType reference).error? =
      ((table.replay steps').resolveType reference).error? := by
  rw [error?_resolveType, error?_resolveType, isSome_package?_replay_congr h,
    isSome_find?_replay_congr h, overrideOf, overrideOf, replay_overrides, replay_overrides]

end SymbolTable

namespace Workspace

/-- Calls on files that all succeed, and calls on the same files in another order that all succeed,
make the same messages known, where imports are located faithfully. The same types can be resolved
then, and the others fail with the same error. Where the messages entered agree with each other and
with those known before, the two registries are equal. -/
theorem extractEach_perm (workspace : Workspace) (table : SymbolTable) (paths paths' : List Path)
    (hperm : paths.Perm paths') (hfaithful : workspace.Faithful)
    (hok : ∀ result ∈ (workspace.extractEach { table } paths).1, result = .ok ())
    (hok' : ∀ result ∈ (workspace.extractEach { table } paths').1, result = .ok ()) :
    (∀ package name,
      ((workspace.extractEach { table } paths).2.table.types.find? package name).isSome ↔
        ((workspace.extractEach { table } paths').2.table.types.find? package name).isSome) ∧
    (∀ reference,
      ((∃ type, (workspace.extractEach { table } paths).2.table.resolveType reference = .ok type) ↔
        ∃ type,
          (workspace.extractEach { table } paths').2.table.resolveType reference = .ok type) ∧
      ∀ e, (workspace.extractEach { table } paths).2.table.resolveType reference = .error e ↔
        (workspace.extractEach { table } paths').2.table.resolveType reference = .error e) ∧
    ∃ steps, workspace.Runs { table } paths steps (workspace.extractEach { table } paths).2 ∧
      (table.AgreesWith steps →
        (workspace.extractEach { table } paths).2.table.types =
          (workspace.extractEach { table } paths').2.table.types) := by
  obtain ⟨steps, hruns⟩ := workspace.exists_runs_extractEach hok
  obtain ⟨steps', hruns'⟩ := workspace.exists_runs_extractEach hok'
  have hfresh : Extraction.IsFresh { table } := ⟨rfl, rfl⟩
  have hsame := hruns.enterSame_of_perm hruns' hfresh hfresh hfaithful hperm
  rw [hruns.table_eq, hruns'.table_eq]
  refine ⟨fun package name => ?_, fun reference => ⟨?_, fun e => ?_⟩, steps, hruns,
    fun hagree => hagree.types_eq hsame⟩
  · rw [SymbolTable.isSome_find?_replay_congr hsame]
  · rw [← Except.error?_eq_none_iff, ← Except.error?_eq_none_iff,
      SymbolTable.error?_resolveType_replay_congr hsame]
  · rw [← Except.error?_eq_some_iff, ← Except.error?_eq_some_iff,
      SymbolTable.error?_resolveType_replay_congr hsame]

/-- Two files that import each other, found along a search path. -/
def crossingFiles : FileSystem where
  rootEntries :=
    [("a.proto", .file "import \"b.proto\"; message A \x7b\x7d".toUTF8),
      ("b.proto", .file "import \"a.proto\"; message B \x7b\x7d".toUTF8)]
  workingDirectory := []

def crossing : Workspace where
  files := crossingFiles
  location := crossingFiles.locateImport ["/"]

theorem crossing_declarations_a : crossing.files.declarationsAt "/a.proto" =
    some [.importing "b.proto", .message "A"] := by cbv

theorem crossing_declarations_b : crossing.files.declarationsAt "/b.proto" =
    some [.importing "a.proto", .message "B"] := by cbv

theorem crossing_reached {path : Path}
    (h : crossing.Reached ["/a.proto", "/b.proto"] (fun _ => True) path) :
    path = "/a.proto" ∨ path = "/b.proto" := by
  have hlocateA : crossing.location "a.proto" = some "/a.proto" := by cbv
  have hlocateB : crossing.location "b.proto" = some "/b.proto" := by cbv
  induction h with
  | listed hmem => simpa using hmem
  | imported _ _ himports ih =>
    obtain ⟨declarations, imported, hdeclarations, hmem, hleads⟩ := himports
    obtain rfl | rfl := ih
    · rw [crossing_declarations_a] at hdeclarations
      cases hdeclarations
      obtain rfl : imported = "b.proto" := by simpa using hmem
      exact .inr (Option.some.inj (hleads.2.symm.trans hlocateB))
    · rw [crossing_declarations_b] at hdeclarations
      cases hdeclarations
      obtain rfl : imported = "a.proto" := by simpa using hmem
      exact .inl (Option.some.inj (hleads.2.symm.trans hlocateA))

theorem crossing_perm :
    (["/a.proto", "/b.proto"] : List Path).Perm ["/b.proto", "/a.proto"] ∧ crossing.Faithful ∧
    (∀ result ∈ (crossing.extractEach { table := .empty } ["/a.proto", "/b.proto"]).1,
      result = .ok ()) ∧
    (∀ result ∈ (crossing.extractEach { table := .empty } ["/b.proto", "/a.proto"]).1,
      result = .ok ()) ∧
    (crossing.extractEach { table := .empty } ["/a.proto", "/b.proto"]).2.table.types =
      (crossing.extractEach { table := .empty } ["/b.proto", "/a.proto"]).2.table.types := by
  have hperm : (["/a.proto", "/b.proto"] : List Path).Perm ["/b.proto", "/a.proto"] := .swap ..
  have hfaithful : crossing.Faithful := locateImport_faithful rfl
  have hresults : (crossing.extractEach { table := .empty } ["/a.proto", "/b.proto"]).1 =
      [.ok (), .ok ()] := by cbv
  have hresults' : (crossing.extractEach { table := .empty } ["/b.proto", "/a.proto"]).1 =
      [.ok (), .ok ()] := by cbv
  obtain ⟨-, -, steps, hruns, hequal⟩ := extractEach_perm crossing .empty _ _ hperm hfaithful
    (by simp [hresults]) (by simp [hresults'])
  refine ⟨hperm, hfaithful, by simp [hresults], by simp [hresults'], hequal ?_⟩
  -- Both messages are in the default package, under different names.
  have hscope : ∀ source scope name, .entered source scope (.message name) ∈ steps →
      scope = {} := by
    intro source scope name hentered
    obtain ⟨path, declarations, hreached, hdeclarations, hmem⟩ :=
      (hruns.entered_iff_reached ⟨rfl, rfl⟩ hfaithful).1 ⟨source, hentered⟩
    obtain rfl | rfl := crossing_reached hreached
    · rw [crossing_declarations_a] at hdeclarations
      cases hdeclarations
      obtain ⟨hscope, -⟩ : scope = {} ∧ name = "A" := by
        simpa [scopedDeclarations, FileScope.after] using hmem
      exact hscope
    · rw [crossing_declarations_b] at hdeclarations
      cases hdeclarations
      obtain ⟨hscope, -⟩ : scope = {} ∧ name = "B" := by
        simpa [scopedDeclarations, FileScope.after] using hmem
      exact hscope
  constructor
  · intro source scope name entry hentered hknown
    cases hknown
  · intro source scope source' scope' name hentered hentered' hpackage
    rw [hscope _ _ _ hentered, hscope _ _ _ hentered']

/-- Where a location is not faithful, the order of the files decides which messages are known. -/
theorem slashed_order_decides :
    (∀ result ∈ (slashed.extractEach { table := .empty } ["/a.proto", "/b.proto"]).1,
      result = .ok ()) ∧
    (∀ result ∈ (slashed.extractEach { table := .empty } ["/b.proto", "/a.proto"]).1,
      result = .ok ()) ∧
    ((slashed.extractEach { table := .empty } ["/a.proto", "/b.proto"]).2.table.types
      |>.find? none "B") = none ∧
    ((slashed.extractEach { table := .empty } ["/b.proto", "/a.proto"]).2.table.types
      |>.find? none "B").isSome := by
  have hresults : (slashed.extractEach { table := .empty } ["/a.proto", "/b.proto"]).1 =
      [.ok (), .ok ()] := by cbv
  have hresults' : (slashed.extractEach { table := .empty } ["/b.proto", "/a.proto"]).1 =
      [.ok (), .ok ()] := by cbv
  exact ⟨by simp [hresults], by simp [hresults'], by cbv, by cbv⟩

end Workspace

end RpcCatalog
