import RpcCatalog.Proofs.Extraction.ImportClosure
import RpcCatalog.Proofs.Lists
import RpcCatalog.Proofs.Resolution
import RpcCatalog.Proofs.SymbolTable.PackageOverrides

/-!
# What a catalog is made of

Where the services of a catalog come from, in terms of the steps of the run behind it.

* `CatalogRun`: the run over the files that a scan finds. A catalog has one
  (`exists_catalogRun`).
* `contributions`: for every name of a scanned file, the last service declared under that name. The
  catalog consists of these, resolved (`CatalogRun.resolved`).
* `FileSystem.Declares`: a file declares a service. Whatever is declared under a name is declared by
  a file that is walked under that name (`CatalogRun.declares_of_mem`).
-/

set_option autoImplicit false

namespace RpcCatalog

/-! ## Declared services -/

/-- The service that a declaration is. -/
def FileScope.service? : FileScope × Declaration → Option (Service TypeReference)
  | (scope, .service name items) => some (scope.service name items)
  | _ => none

/-- The services of a text, in order. -/
def declaredServices (declarations : List Declaration) : List (Service TypeReference) :=
  (scopedDeclarations {} declarations).filterMap FileScope.service?

/-- The file at a path declares a service. -/
def FileSystem.Declares (files : FileSystem) (path : Path) (service : Service TypeReference) :
    Prop :=
  ∃ declarations, files.declarationsAt path = some declarations ∧
    service ∈ declaredServices declarations

theorem mem_servicesUnder {file : String} {steps : List Step} {source : Source}
    {service : Service TypeReference} :
    (source, service) ∈ servicesUnder file steps ↔
      source.name = file ∧ service ∈ (enteredFrom source steps).filterMap FileScope.service? := by
  unfold servicesUnder enteredFrom
  simp only [List.mem_filterMap]
  constructor
  · rintro ⟨step, hstep, h⟩
    cases step with
    | met path content => cases h
    | entered source' scope declaration =>
      cases declaration with
      | service name items =>
        simp only [Step.serviceUnder?] at h
        split at h
        · next hname =>
          cases h
          exact ⟨hname, (scope, .service name items), ⟨_, hstep, by simp [Step.enteredFrom?]⟩, rfl⟩
        · cases h
      | _ => cases h
  · rintro ⟨rfl, ⟨scope, declaration⟩, ⟨step, hstep, h⟩, hservice⟩
    cases step with
    | met path content => cases h
    | entered source' scope' declaration' =>
      simp only [Step.enteredFrom?] at h
      split at h
      · next hsource =>
        subst hsource
        cases h
        cases declaration with
        | service name items =>
          cases hservice
          exact ⟨_, hstep, by simp [Step.serviceUnder?]⟩
        | _ => cases hservice
      · cases h

theorem Step.filter_serviceUnder? (source : Source) (step : Step) :
    ((step.serviceUnder? source.name).filter (·.1 = source)).map Prod.snd =
      (step.enteredFrom? source).bind FileScope.service? := by
  cases step with
  | met path content => rfl
  | entered source' scope declaration =>
    by_cases hsource : source' = source
    · subst hsource
      cases declaration with
      | service name items =>
        simp [Step.serviceUnder?, Step.enteredFrom?, FileScope.service?, Option.filter]
      | _ => simp [Step.serviceUnder?, Step.enteredFrom?, FileScope.service?]
    · cases declaration with
      | service name items =>
        by_cases hname : source'.name = source.name
        · simp [Step.serviceUnder?, Step.enteredFrom?, hsource, hname, Option.filter]
        · simp [Step.serviceUnder?, Step.enteredFrom?, hsource, hname]
      | _ => simp [Step.serviceUnder?, Step.enteredFrom?, hsource]

theorem filter_servicesUnder (source : Source) (steps : List Step) :
    ((servicesUnder source.name steps).filter (·.1 = source)).map Prod.snd =
      (enteredFrom source steps).filterMap FileScope.service? := by
  rw [servicesUnder, enteredFrom, List.filter_filterMap, List.map_filterMap,
    List.filterMap_filterMap]
  exact List.filterMap_congr fun step _ => step.filter_serviceUnder? source

/-! ## Files found -/

theorem FileSystem.isFile_of_mem_scan {files : FileSystem} {directory : Path} {extension : String}
    {found : List Path} (h : files.scan directory extension = .ok found) {path : Path}
    (hpath : path ∈ found) : files.isFile path := by
  unfold scan at h
  split at h
  · cases h
  · split at h
    · dsimp only at h
      split at h
      · cases h
      · split at h
        · cases h
        · cases h
          obtain ⟨visit, hvisit, rfl⟩ := List.mem_map.1 hpath
          have hkept := (List.mem_filter.1 hvisit).2
          simp only [Bool.and_eq_true] at hkept
          exact hkept.2
    · cases h

/-! ## The run behind a catalog -/

/-- The workspace that a configuration makes of a tree. -/
def Configuration.workspace (configuration : Configuration) (files : FileSystem) : Workspace where
  files
  location := files.locateImport configuration.importRoots
  lenient := configuration.lenient

/-- A run over the files that a scan of a directory finds, from a table that knows overrides
alone. -/
structure CatalogRun (files : FileSystem) (configuration : Configuration) (directory : Path)
    (found : List Path) (steps : List Step) (final : Extraction) : Prop where
  scan : files.scan directory configuration.extension = .ok found
  runs : ∃ table events,
    SymbolTable.withOverrides configuration.packageOverrides.entries = .ok table ∧
      (configuration.workspace files).Runs { table, events } found steps final

/-- The services that a catalog is made of, each with the text that it is from: for every name of a
file found, the last service declared under it. -/
def contributions (found : List Path) (steps : List Step) :
    List (Source × Service TypeReference) :=
  (found.map Path.baseName).eraseDups.filterMap fun name => (servicesUnder name steps).getLast?

theorem mem_contributions {found : List Path} {steps : List Step}
    {entry : Source × Service TypeReference} :
    entry ∈ contributions found steps ↔
      ∃ path ∈ found, (servicesUnder path.baseName steps).getLast? = some entry := by
  simp [contributions, List.mem_eraseDups]

theorem exists_catalogRun {files : FileSystem} {configuration : Configuration} {directory : Path}
    {services : List (Service ResolvedType)}
    (h : (catalog files configuration directory).result = .ok services) :
    ∃ found steps final, CatalogRun files configuration directory found steps final ∧
      final.table.resolveServices (found.map Path.baseName) = .ok services := by
  unfold catalog catalogWith at h
  split at h
  · cases h
  · next found hscan =>
    dsimp only at h
    split at h
    · cases h
    · next table htable =>
      split at h
      · cases h
      · next final hall =>
        obtain ⟨steps, hruns⟩ := (configuration.workspace files).exists_runs_extractAll hall
        exact ⟨found, steps, final, ⟨hscan, table, _, htable, hruns⟩, h⟩

namespace CatalogRun

variable {files : FileSystem} {configuration : Configuration} {directory : Path}
  {found : List Path} {steps : List Step} {final : Extraction}

theorem closesImports (h : CatalogRun files configuration directory found steps final) :
    (configuration.workspace files).ClosesImports found steps := by
  obtain ⟨table, events, -, hruns⟩ := h.runs
  exact hruns.closesImports ⟨rfl, rfl⟩

/-- What is walked has every property that the files found have and that imports pass on. -/
theorem walked_of_closed (h : CatalogRun files configuration directory found steps final)
    {closed : Path → Prop} (hfound : ∀ path ∈ found, closed path)
    (himports : ∀ importer, closed importer → ∀ location,
      (configuration.workspace files).Imports importer location → closed location) :
    ∀ path ∈ walkedPaths steps, closed path := by
  obtain ⟨table, events, -, hruns⟩ := h.runs
  intro path hwalked
  exact hruns.met_of_closed hfound (fun importer _ => himports importer) path
    ((h.closesImports.walked_iff path).1 hwalked).1

/-- A file found that is readable and well formed is walked, under one path. -/
theorem exists_walked (h : CatalogRun files configuration directory found steps final) {path : Path}
    (hpath : path ∈ found) {declarations : List Declaration}
    (hdeclarations : files.declarationsAt path = some declarations) :
    ∃ path' ∈ walkedPaths steps, files.identity path' = files.identity path ∧
      files.declarationsAt path' = some declarations ∧
        ∀ other ∈ walkedPaths steps,
          files.identity other = files.identity path → other = path' := by
  obtain ⟨table, events, -, hruns⟩ := h.runs
  have hfaithful : (configuration.workspace files).Faithful :=
    @Workspace.locateImport_faithful _ configuration.importRoots rfl
  have hwalked := (hruns.walked_iff_reached ⟨rfl, rfl⟩ hfaithful (files.identity path)).2
    ⟨path, .listed hpath, rfl, hdeclarations ▸ rfl⟩
  obtain ⟨path', hpath', hidentity⟩ := List.mem_map.1 hwalked
  obtain ⟨hmet, hsome⟩ := (h.closesImports.walked_iff path').1 hpath'
  obtain ⟨declarations', hdeclarations'⟩ := Option.isSome_iff_exists.1 hsome
  obtain rfl := files.declarationsAt_unique hidentity hdeclarations' hdeclarations
  refine ⟨path', hpath', hidentity, hdeclarations', fun other hother hidentity' => ?_⟩
  exact List.inj_on_of_nodup_map h.closesImports.met_nodup
    ((h.closesImports.walked_iff other).1 hother).1 hmet (hidentity'.trans hidentity.symm)

theorem services_eq (h : CatalogRun files configuration directory found steps final) {path : Path}
    (hpath : path ∈ walkedPaths steps) {declarations : List Declaration}
    (hdeclarations : files.declarationsAt path = some declarations) :
    (enteredFrom (.ofPath path) steps).filterMap FileScope.service? =
      declaredServices declarations := by
  rw [h.closesImports.walked_entered path hpath declarations hdeclarations]
  rfl

/-- What is under a name was declared by a file that is walked under that name. -/
theorem declares_of_mem (h : CatalogRun files configuration directory found steps final)
    {file : String} {source : Source} {service : Service TypeReference}
    (hmem : (source, service) ∈ servicesUnder file steps) :
    ∃ path ∈ walkedPaths steps, source = .ofPath path ∧ path.baseName = file ∧
      files.Declares path service := by
  obtain ⟨hname, hservice⟩ := mem_servicesUnder.1 hmem
  have hentered : ∃ entry, entry ∈ enteredFrom source steps := by
    obtain ⟨entry, hentry, -⟩ := List.mem_filterMap.1 hservice
    exact ⟨entry, hentry⟩
  obtain ⟨⟨scope, declaration⟩, hentry⟩ := hentered
  obtain ⟨path, hpath, rfl⟩ :=
    h.closesImports.entered_walked _ _ _ (mem_enteredFrom.1 hentry)
  obtain ⟨declarations, hdeclarations⟩ :=
    Option.isSome_iff_exists.1 ((h.closesImports.walked_iff path).1 hpath).2
  refine ⟨path, hpath, rfl, hname, declarations, hdeclarations, ?_⟩
  rwa [h.services_eq hpath hdeclarations] at hservice

theorem find?_eq (h : CatalogRun files configuration directory found steps final) (file : String) :
    final.table.services.find? file = (servicesUnder file steps).getLast?.map Prod.snd := by
  obtain ⟨table, events, htable, hruns⟩ := h.runs
  obtain ⟨overrides, -, rfl⟩ := SymbolTable.withOverrides_eq_ok htable
  rw [hruns.table_eq, SymbolTable.find?_replay]
  simp [SymbolTable.empty, ServiceRegistry.find?, ServiceRegistry.empty]

theorem servicesOf_eq (h : CatalogRun files configuration directory found steps final) :
    final.table.servicesOf (found.map Path.baseName) =
      (contributions found steps).map Prod.snd := by
  rw [SymbolTable.servicesOf_eq_filterMap, contributions, List.map_filterMap]
  exact List.filterMap_congr fun file _ => h.find?_eq file

/-- A catalog is made of contributions, each resolved, in the same order. -/
theorem resolved (h : CatalogRun files configuration directory found steps final)
    {services : List (Service ResolvedType)}
    (hservices : final.table.resolveServices (found.map Path.baseName) = .ok services) :
    List.Forall₂ (fun entry service => final.table.resolveService entry.2 = .ok service)
      (contributions found steps) services := by
  rw [SymbolTable.resolveServices, h.servicesOf_eq] at hservices
  exact List.forall₂_map_left_iff.1 (List.mapM_except_eq_ok_iff.1 hservices)

end CatalogRun

end RpcCatalog
