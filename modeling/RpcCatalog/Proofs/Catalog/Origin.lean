import RpcCatalog.Proofs.Catalog.Contribution

/-!
# The origin of a catalog's services

A catalog looks services up by the names of the scanned files, and a service is registered under the
name of the path at which its file was met first. What this means for the files:

* `catalog_scanned_service_iff`: a scanned file is represented by its last service exactly if that
  path has the name of a scanned file and no other file has the last word under the name.
* `catalog_services_scanned_iff`: all services of a catalog are declared in scanned files exactly if
  no file outside has the last word under the name of a scanned file.
-/

set_option autoImplicit false

namespace RpcCatalog

variable {files : FileSystem} {configuration : Configuration} {directory : Path}
  {found : List Path} {steps : List Step} {final : Extraction}

/-! ## Single files -/

/-- What a walked file contributes: its last service, if it has the last word under the name of a
scanned file, else nothing. -/
theorem CatalogRun.filter_contributions
    (h : CatalogRun files configuration directory found steps final) {path : Path}
    (hpath : path ∈ walkedPaths steps) {declarations : List Declaration}
    (hdeclarations : files.declarationsAt path = some declarations)
    {service : Service TypeReference}
    (hlast : (declaredServices declarations).getLast? = some service) :
    (contributions found steps).filter (·.1 = .ofPath path) =
      if path.baseName ∈ found.map Path.baseName ∧
          ∀ entry ∈ (servicesUnder path.baseName steps).getLast?, entry.1 = .ofPath path
      then [(.ofPath path, service)] else [] := by
  have hkey : ∀ file entry, (servicesUnder file steps).getLast? = some entry →
      decide (entry.1 = .ofPath path) = true → file = path.baseName := by
    rintro file ⟨source, service⟩ hentry hsource
    obtain ⟨hname, -⟩ := mem_servicesUnder.1 (List.mem_of_getLast? hentry)
    simp only [decide_eq_true_eq] at hsource
    rw [← hname, hsource]
    rfl
  have hown : ((servicesUnder path.baseName steps).filter (·.1 = .ofPath path)).map Prod.snd =
      declaredServices declarations :=
    (filter_servicesUnder (.ofPath path) steps).trans (h.services_eq hpath hdeclarations)
  rw [contributions, List.filter_filterMap_of_nodup (List.nodup_eraseDups _) hkey]
  simp only [List.mem_eraseDups]
  by_cases hmem : path.baseName ∈ found.map Path.baseName
  · cases hentry : (servicesUnder path.baseName steps).getLast? with
    | none =>
      rw [List.getLast?_eq_none_iff.1 hentry] at hown
      rw [← hown] at hlast
      cases hlast
    | some entry =>
      by_cases hsource : entry.1 = .ofPath path
      · have hfilter : ((servicesUnder path.baseName steps).filter
            (·.1 = .ofPath path)).getLast? = some entry :=
          List.getLast?_filter_of_getLast? hentry (by simpa using hsource)
        rw [← hown, List.getLast?_map, hfilter] at hlast
        obtain ⟨source, service'⟩ := entry
        obtain rfl : service' = service := by simpa using hlast
        obtain rfl : source = .ofPath path := hsource
        simp [hmem, Option.filter]
      · simp [hmem, hsource, Option.filter]
  · simp [hmem]

/-- The services that a catalog is made of, and those among them that are of a scanned file. A
scanned file with services is walked under one path. It is represented once, by its last service,
exactly if the name of that path is the name of a scanned file and every service that another file
declares under this name is followed by one of its own; otherwise it is not represented. If the path
has the file's own name and no other file is walked under it, that is so. -/
theorem catalog_scanned_service_iff {services : List (Service ResolvedType)}
    (h : (catalog files configuration directory).result = .ok services) :
    ∃ found steps final, CatalogRun files configuration directory found steps final ∧
      List.Forall₂ (fun entry service => final.table.resolveService entry.2 = .ok service)
        (contributions found steps) services ∧
      ∀ scanned ∈ found, ∀ declarations service,
        files.declarationsAt scanned = some declarations →
          (declaredServices declarations).getLast? = some service →
            ∃ path ∈ walkedPaths steps, files.identity path = files.identity scanned ∧
              (∀ other ∈ walkedPaths steps,
                files.identity other = files.identity scanned → other = path) ∧
              ((contributions found steps).filter (·.1 = .ofPath path) =
                  [(.ofPath path, service)] ↔
                path.baseName ∈ found.map Path.baseName ∧
                  ∀ front entry back, servicesUnder path.baseName steps = front ++ entry :: back →
                    entry.1 ≠ .ofPath path → ∃ later ∈ back, later.1 = .ofPath path) ∧
              ((contributions found steps).filter (·.1 = .ofPath path) ≠
                  [(.ofPath path, service)] →
                (contributions found steps).filter (·.1 = .ofPath path) = []) ∧
              ((∀ other ∈ walkedPaths steps, files.identity other ≠ files.identity scanned →
                  other.baseName ≠ scanned.baseName) →
                path.baseName = scanned.baseName →
                  (contributions found steps).filter (·.1 = .ofPath path) =
                    [(.ofPath path, service)]) := by
  obtain ⟨found, steps, final, hrun, hservices⟩ := exists_catalogRun h
  refine ⟨found, steps, final, hrun, hrun.resolved hservices,
    fun scanned hscanned declarations service hdeclarations hlast => ?_⟩
  obtain ⟨path, hpath, hidentity, hdeclarations', hunique⟩ :=
    hrun.exists_walked hscanned hdeclarations
  have hfilter := hrun.filter_contributions hpath hdeclarations' hlast
  have hiff : (contributions found steps).filter (·.1 = .ofPath path) =
      [(.ofPath path, service)] ↔ path.baseName ∈ found.map Path.baseName ∧
        ∀ entry ∈ (servicesUnder path.baseName steps).getLast?, entry.1 = .ofPath path := by
    rw [hfilter]
    split
    · next hcond => exact ⟨fun _ => hcond, fun _ => rfl⟩
    · next hcond =>
      exact ⟨fun e => absurd e.symm (List.cons_ne_nil _ _), fun hcond' => absurd hcond' hcond⟩
  refine ⟨path, hpath, hidentity, hunique, ?_, fun hne => ?_, fun hothers hname => ?_⟩
  · rw [hiff, List.forall_getLast?_iff]
  · rw [hfilter, if_neg fun hcond => hne (hiff.2 hcond)]
  · rw [hiff, hname]
    refine ⟨List.mem_map_of_mem hscanned, fun ⟨source, service'⟩ hentry => ?_⟩
    obtain ⟨other, hother, rfl, hotherName, -⟩ :=
      hrun.declares_of_mem (List.mem_of_getLast? hentry)
    by_cases hsame : files.identity other = files.identity scanned
    · exact congrArg Source.ofPath (hunique other hother hsame)
    · exact absurd hotherName (hothers other hother hsame)

/-- A file that is imported through a link of its own name, by a file that is scanned before it. -/
def relinked : FileSystem where
  rootEntries :=
    [("inc", .directory [("b.proto", .link "../protos/b.proto")]),
      ("protos", .directory
        [("a.proto", .file "import \"b.proto\";".toUTF8),
          ("b.proto", .file "service S \x7b\x7d".toUTF8)])]
  workingDirectory := []

/-- The search path that leads to the links. -/
def linking : Configuration := { importPaths := ["inc"] }

theorem relinked_walked (hrun : CatalogRun relinked linking "protos" found steps final) :
    found = (["protos/a.proto", "protos/b.proto"] : List Path) ∧
      ∀ path ∈ walkedPaths steps,
        path = "protos/a.proto" ∨ path = "protos/b.proto" ∨ path = "inc/b.proto" := by
  have hscan : relinked.scan "protos" ".proto" = .ok ["protos/a.proto", "protos/b.proto"] := by
    cbv
  have hfound : found = (["protos/a.proto", "protos/b.proto"] : List Path) :=
    Except.ok.inj (hrun.scan.symm.trans hscan)
  refine ⟨hfound, hrun.walked_of_closed (by simp [hfound]) ?_⟩
  rintro importer himporter location ⟨declarations, imported, hdeclarations, hmem, hleads⟩
  have hdeclarations : relinked.declarationsAt importer = some declarations := hdeclarations
  have hlocate : relinked.locateImport ["inc"] imported = some location := hleads.2
  obtain rfl | himporter := himporter
  · have ha : relinked.declarationsAt "protos/a.proto" = some [.importing "b.proto"] := by cbv
    rw [ha] at hdeclarations
    cases hdeclarations
    obtain rfl : imported = "b.proto" := by simpa using hmem
    have hlocate' : relinked.locateImport ["inc"] "b.proto" = some (.ofText "inc/b.proto") := by
      cbv
    exact .inr (.inr (Option.some.inj (hlocate.symm.trans hlocate')))
  · have hb : relinked.declarationsAt importer = some [.service "S" []] := by
      obtain rfl | rfl := himporter <;> cbv
    rw [hb] at hdeclarations
    cases hdeclarations
    simp at hmem

/-- The imported file is represented, whichever of its paths is walked. -/
theorem relinked_scanned_service :
    (catalog relinked linking "protos").result =
        .ok [{ name := "S", protoPackage := none, outputPackage := "", methods := [] }] ∧
      ∃ found steps final, CatalogRun relinked linking "protos" found steps final ∧
        List.Forall₂ (fun entry service => final.table.resolveService entry.2 = .ok service)
          (contributions found steps)
          [{ name := "S", protoPackage := none, outputPackage := "", methods := [] }] ∧
        ∃ path ∈ walkedPaths steps,
          relinked.identity path = relinked.identity "protos/b.proto" ∧
          (contributions found steps).filter (·.1 = .ofPath path) =
            [(.ofPath path,
              { name := "S", protoPackage := none, outputPackage := "", methods := [] })] ∧
          ∀ front entry back, servicesUnder path.baseName steps = front ++ entry :: back →
            entry.1 ≠ .ofPath path → ∃ later ∈ back, later.1 = .ofPath path := by
  have h : (catalog relinked linking "protos").result =
      .ok [{ name := "S", protoPackage := none, outputPackage := "", methods := [] }] := by
    cbv
  obtain ⟨found, steps, final, hrun, hresolved, hscanned⟩ := catalog_scanned_service_iff h
  obtain ⟨rfl, hwalked⟩ := relinked_walked hrun
  have hb : relinked.declarationsAt "protos/b.proto" = some [.service "S" []] := by cbv
  obtain ⟨path, hpath, hidentity, -, hiff, -, hsole⟩ :=
    hscanned "protos/b.proto" (by simp) _ _ hb rfl
  have hname : path.baseName = Path.baseName "protos/b.proto" := by
    obtain rfl | rfl | rfl := hwalked path hpath
    · have ha : relinked.identity "protos/a.proto" =
          [.root, .name "protos", .name "a.proto"] := by
        cbv
      have hb : relinked.identity "protos/b.proto" =
          [.root, .name "protos", .name "b.proto"] := by
        cbv
      rw [ha, hb] at hidentity
      simp at hidentity
    · rfl
    · cbv
  have hothers : ∀ other ∈ walkedPaths steps,
      relinked.identity other ≠ relinked.identity "protos/b.proto" →
        other.baseName ≠ Path.baseName "protos/b.proto" := by
    intro other hother hne
    obtain rfl | rfl | rfl := hwalked other hother
    · cbv
    · exact absurd rfl hne
    · exact absurd (by cbv) hne
  have hrepresented := hsole hothers hname
  exact ⟨h, _, steps, final, hrun, hresolved, path, hpath, hidentity, hrepresented,
    (hiff.1 hrepresented).2⟩

/-- A file that is imported through a link of another name, by a file that is scanned before it. -/
def aliased : FileSystem where
  rootEntries :=
    [("inc", .directory [("alias.proto", .link "../protos/real.proto")]),
      ("protos", .directory
        [("a.proto", .file "import \"alias.proto\";".toUTF8),
          ("real.proto", .file "service S \x7b\x7d".toUTF8)])]
  workingDirectory := []

/-- A scanned file may declare a service, have a name that no other walked file has, and yet be
missing from the catalog. -/
theorem aliased_service_lost :
    (catalog aliased linking "protos").result = .ok [] ∧
      (∃ service, aliased.Declares "protos/real.proto" service) ∧
      ∀ found steps final, CatalogRun aliased linking "protos" found steps final →
        ("protos/real.proto" : Path) ∈ found ∧
          ∀ other ∈ walkedPaths steps,
            aliased.identity other ≠ aliased.identity "protos/real.proto" →
              other.baseName ≠ Path.baseName "protos/real.proto" := by
  have ha : aliased.declarationsAt "protos/a.proto" = some [.importing "alias.proto"] := by cbv
  have hreal : aliased.declarationsAt "protos/real.proto" = some [.service "S" []] := by cbv
  have hscan : aliased.scan "protos" ".proto" = .ok ["protos/a.proto", "protos/real.proto"] := by
    cbv
  have hlocate : aliased.locateImport ["inc"] "alias.proto" = some (.ofText "inc/alias.proto") := by
    cbv
  refine ⟨by cbv, ⟨_, _, hreal, List.mem_cons_self⟩, fun found steps final hrun => ?_⟩
  have hfound : found = (["protos/a.proto", "protos/real.proto"] : List Path) :=
    Except.ok.inj (hrun.scan.symm.trans hscan)
  subst hfound
  have hwalked : ∀ path ∈ walkedPaths steps, path = "protos/a.proto" ∨
      path = "protos/real.proto" ∨ path = "inc/alias.proto" := by
    refine hrun.walked_of_closed (by simp) ?_
    rintro importer himporter location ⟨declarations, imported, hdeclarations, hmem, hleads⟩
    have hdeclarations : aliased.declarationsAt importer = some declarations := hdeclarations
    obtain rfl | himporter := himporter
    · rw [ha] at hdeclarations
      cases hdeclarations
      obtain rfl : imported = "alias.proto" := by simpa using hmem
      exact .inr (.inr (Option.some.inj (hleads.2.symm.trans hlocate)))
    · have hservice : aliased.declarationsAt importer = some [.service "S" []] := by
        obtain rfl | rfl := himporter
        · exact hreal
        · cbv
      rw [hservice] at hdeclarations
      cases hdeclarations
      simp at hmem
  refine ⟨by simp, fun other hother hne => ?_⟩
  obtain rfl | rfl | rfl := hwalked other hother
  · cbv
  · exact absurd rfl hne
  · exact absurd (by cbv) hne

/-! ## The catalog as a whole -/

/-- A scanned file declares a service that comes to the same as a given one. -/
def StandsForScanned (files : FileSystem) (found : List Path) (table : SymbolTable)
    (service : Service TypeReference) : Prop :=
  ∃ scanned ∈ found, ∃ declared, files.Declares scanned declared ∧
    table.resolveService declared = table.resolveService service

/-- Every service of a catalog is declared in a file that is walked under the name of a scanned
file. All are declared in scanned files exactly if, under every name of a scanned file, each service
of another file that stands for no scanned one is followed by a service that does. -/
theorem catalog_services_scanned_iff {services : List (Service ResolvedType)}
    (h : (catalog files configuration directory).result = .ok services) :
    ∃ found steps final, CatalogRun files configuration directory found steps final ∧
      (∀ service ∈ services, ∃ path ∈ walkedPaths steps,
        path.baseName ∈ found.map Path.baseName ∧ ∃ declared, files.Declares path declared ∧
          final.table.resolveService declared = .ok service) ∧
      ((∀ service ∈ services, ∃ scanned ∈ found, ∃ declared, files.Declares scanned declared ∧
          final.table.resolveService declared = .ok service) ↔
        ∀ scanned ∈ found, ∀ front path service back,
          servicesUnder scanned.baseName steps = front ++ (.ofPath path, service) :: back →
            files.identity path ∉ found.map files.identity →
              StandsForScanned files found final.table service ∨
                ∃ later ∈ back, StandsForScanned files found final.table later.2) := by
  obtain ⟨found, steps, final, hrun, hservices⟩ := exists_catalogRun h
  have hresolved := hrun.resolved hservices
  have hcontributed : ∀ service ∈ services, ∃ scanned ∈ found, ∃ path declared,
      (servicesUnder scanned.baseName steps).getLast? = some (.ofPath path, declared) ∧
        path ∈ walkedPaths steps ∧ path.baseName = scanned.baseName ∧
          files.Declares path declared ∧ final.table.resolveService declared = .ok service := by
    intro service hservice
    obtain ⟨⟨source, declared⟩, hentry, hresolve⟩ := hresolved.exists_of_mem_right hservice
    obtain ⟨scanned, hscanned, hlast⟩ := mem_contributions.1 hentry
    obtain ⟨path, hpath, rfl, hname, hdeclares⟩ :=
      hrun.declares_of_mem (List.mem_of_getLast? hlast)
    exact ⟨scanned, hscanned, path, declared, hlast, hpath, hname, hdeclares, hresolve⟩
  refine ⟨found, steps, final, hrun, fun service hservice => ?_, fun hall => ?_, fun hsplit => ?_⟩
  · obtain ⟨scanned, hscanned, path, declared, -, hpath, hname, hdeclares, hresolve⟩ :=
      hcontributed service hservice
    exact ⟨path, hpath, hname ▸ List.mem_map_of_mem hscanned, declared, hdeclares, hresolve⟩
  · intro scanned hscanned front path service back hentries _
    -- The last service under the name is resolved in the catalog, so it stands for a scanned one.
    have hlast : ∀ entry ∈ (servicesUnder scanned.baseName steps).getLast?,
        StandsForScanned files found final.table entry.2 := by
      intro entry hentry
      obtain ⟨service', hservice', hresolve⟩ :=
        hresolved.exists_of_mem_left (mem_contributions.2 ⟨scanned, hscanned, hentry⟩)
      obtain ⟨scanned', hscanned', declared, hdeclares, hresolve'⟩ := hall service' hservice'
      exact ⟨scanned', hscanned', declared, hdeclares, hresolve'.trans hresolve.symm⟩
    have hfollowed := List.forall_getLast?_iff.1 hlast front _ back hentries
    by_cases hstands : StandsForScanned files found final.table service
    · exact .inl hstands
    · exact .inr (hfollowed hstands)
  · intro service hservice
    obtain ⟨scanned, hscanned, path, declared, hlast, hpath, -, hdeclares, hresolve⟩ :=
      hcontributed service hservice
    have hstands : StandsForScanned files found final.table declared := by
      by_cases hinside : files.identity path ∈ found.map files.identity
      · obtain ⟨scanned', hscanned', hidentity⟩ := List.mem_map.1 hinside
        obtain ⟨declarations, hdeclarations, hmem⟩ := hdeclares
        have hfile := FileSystem.isFile_of_mem_scan hrun.scan hscanned'
        exact ⟨scanned', hscanned', declared, ⟨declarations,
          FileSystem.declarationsAt_of_isFile hidentity.symm hdeclarations hfile, hmem⟩, rfl⟩
      · obtain ⟨front, hentries⟩ := List.getLast?_eq_some_iff.1 hlast
        obtain hstands | ⟨_, hlater, -⟩ :=
          hsplit scanned hscanned front path declared [] hentries hinside
        · exact hstands
        · cases hlater
    obtain ⟨scanned', hscanned', declared', hdeclares', hresolve'⟩ := hstands
    exact ⟨scanned', hscanned', declared', hdeclares', hresolve'.trans hresolve⟩

/-- All services are declared in scanned files, as only these are walked, under whichever paths. -/
theorem relinked_services_scanned :
    (catalog relinked linking "protos").result =
        .ok [{ name := "S", protoPackage := none, outputPackage := "", methods := [] }] ∧
      ∃ found steps final, CatalogRun relinked linking "protos" found steps final ∧
        ∃ scanned ∈ found, ∃ declared, relinked.Declares scanned declared ∧
          final.table.resolveService declared = .ok
            { name := "S", protoPackage := none, outputPackage := "", methods := [] } := by
  have h : (catalog relinked linking "protos").result =
      .ok [{ name := "S", protoPackage := none, outputPackage := "", methods := [] }] := by
    cbv
  obtain ⟨found, steps, final, hrun, -, hiff⟩ := catalog_services_scanned_iff h
  obtain ⟨rfl, hwalked⟩ := relinked_walked hrun
  refine ⟨h, _, steps, final, hrun,
    hiff.2 (fun scanned _ front path service back hsplit hout => ?_) _ List.mem_cons_self⟩
  have hmem : (.ofPath path, service) ∈ servicesUnder scanned.baseName steps := by
    rw [hsplit]
    exact List.mem_append_right _ List.mem_cons_self
  obtain ⟨path', hpath', hsource, -, -⟩ := hrun.declares_of_mem hmem
  obtain rfl := Source.ofPath_inj hsource
  refine absurd ?_ hout
  obtain rfl | rfl | rfl := hwalked path hpath'
  · exact List.mem_cons_self
  · exact List.mem_cons_of_mem _ List.mem_cons_self
  · exact List.mem_cons_of_mem _ (List.mem_singleton.2 (by cbv))

/-- A file without services, and an imported file of the same name with one. -/
def shadowed : FileSystem where
  rootEntries :=
    [("inc", .directory [("b.proto", .file "service S \x7b\x7d".toUTF8)]),
      ("protos", .directory
        [("a.proto", .file "import \"b.proto\";".toUTF8),
          ("b.proto", .file "message B \x7b\x7d".toUTF8)])]
  workingDirectory := []

/-- A catalog may have a service although no scanned file declares any. -/
theorem shadowed_service_returned :
    (catalog shadowed { importPaths := ["inc"] } "protos").result =
        .ok [{ name := "S", protoPackage := none, outputPackage := "", methods := [] }] ∧
      shadowed.scan "protos" ".proto" = .ok ["protos/a.proto", "protos/b.proto"] ∧
      ∀ scanned ∈ (["protos/a.proto", "protos/b.proto"] : List Path), ∀ service,
        ¬ shadowed.Declares scanned service := by
  have ha : shadowed.declarationsAt "protos/a.proto" = some [.importing "b.proto"] := by cbv
  have hb : shadowed.declarationsAt "protos/b.proto" = some [.message "B"] := by cbv
  refine ⟨by cbv, by cbv, ?_⟩
  rintro scanned hscanned service ⟨declarations, hdeclarations, hservice⟩
  simp only [List.mem_cons, List.not_mem_nil, or_false] at hscanned
  obtain rfl | rfl := hscanned
  · rw [ha] at hdeclarations
    cases hdeclarations
    cases hservice
  · rw [hb] at hdeclarations
    cases hdeclarations
    cases hservice

end RpcCatalog
