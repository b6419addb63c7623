import RpcCatalog.CommandLine
import RpcCatalog.Proofs.Catalog.Origin
import RpcCatalog.Proofs.Descriptor

/-!
# The output of a run

What is written to the output when services are asked for as JSON: the details first, if they are
wanted, and then one JSON text with the services of the catalog.

* `CommandLine.answer_code_eq_zero_iff`: the runs that succeed.
* `CommandLine.run_json_output`: the output of a run that succeeds. It is a JSON text exactly if no
  details are wanted.
-/

set_option autoImplicit false

namespace RpcCatalog.CommandLine

open Json (Value)

/-! ## Services -/

/-- The services that a JSON value describes. -/
def servicesOfJson? : Value → Option (List (Service ResolvedType)) :=
  Value.listOf? (Service.ofJson? ResolvedType.ofJson?)

theorem describes_services : Describes servicesJson servicesOfJson? :=
  describes_resolvedType.service.list

theorem decode_servicesJson (services : List (Service ResolvedType)) :
    decode servicesOfJson? ((servicesJson services).renderPretty ++ "\n") = some services := by
  rw [decode, (describes_services.isWritten services).ofText?_line, Option.bind_some,
    describes_services.ofJson?]

/-! ## Details -/

section Details

variable (configuration : Configuration) (directory : String)

theorem preamble_false : preamble false configuration directory = "" := rfl

theorem head?_preamble : (preamble true configuration directory).toList.head? = some '→' := by
  simp only [preamble, unlines, if_true, List.map_cons, String.join_cons, String.toList_append]
  rfl

/-- No JSON text begins with an arrow. -/
theorem ofText?_preamble (text : String) :
    Value.ofText? (preamble true configuration directory ++ text) = none := by
  obtain ⟨rest, hrest⟩ := List.head?_eq_some_iff.1 (head?_preamble configuration directory)
  have htokens : Json.tokens? (preamble true configuration directory ++ text).toList = none := by
    rw [String.toList_append, hrest]
    exact Json.tokens?_eq_none (by decide) rfl
  rw [Value.ofText?, htokens]

end Details

/-! ## Runs -/

section Runs

variable {files : FileSystem} {arguments : List String} {verbose lenient : Bool}
  {directory : String} {importPaths : List String} {file : Option String} {format : OutputFormat}

theorem catalogResponse_code_eq_zero_iff {configuration : Configuration} :
    (catalogResponse files verbose configuration directory format).code = 0 ↔
      ∃ services, (catalog files configuration directory).result = .ok services := by
  unfold catalogResponse
  cases hresult : (catalog files configuration directory).result with
  | error e => simp [hresult]
  | ok services => simp [hresult]

theorem answer_code_eq_zero_iff :
    (Request.answer files
        ⟨verbose, .parse directory importPaths file lenient format⟩).code = 0 ↔
      ∃ configuration services,
        (Command.parse directory importPaths file lenient format).configuration files =
          .ok configuration ∧
        (catalog files configuration directory).result = .ok services := by
  unfold Request.answer
  cases hload : (Command.parse directory importPaths file lenient format).configuration files with
  | error failure => simp
  | ok configuration => simp [catalogResponse_code_eq_zero_iff]

theorem answer_json_output {configuration : Configuration}
    {services : List (Service ResolvedType)}
    (hload : (Command.parse directory importPaths file lenient .json).configuration files =
      .ok configuration)
    (hresult : (catalog files configuration directory).result = .ok services) :
    (Request.answer files
        ⟨verbose, .parse directory importPaths file lenient .json⟩).output =
      preamble verbose configuration directory
        ++ ((servicesJson services).renderPretty ++ "\n") := by
  simp only [Request.answer, hload, catalogResponse, hresult]

theorem run_eq_answer {request : Request} (h : Request.ofArguments arguments = .ok request) :
    run files arguments = request.answer files := by
  rw [run, h]

/-- A run that succeeds writes the services of the catalog as JSON. Behind details that are wanted
this is not the whole output, and the output is then no JSON text. -/
theorem run_json_output
    (hrequest : Request.ofArguments arguments =
      .ok ⟨verbose, .parse directory importPaths file lenient .json⟩)
    (hcode : (run files arguments).code = 0) :
    ∃ configuration services text,
      (Command.parse directory importPaths file lenient .json).configuration files =
        .ok configuration ∧
      (catalog files configuration directory).result = .ok services ∧
      (run files arguments).output = preamble verbose configuration directory ++ text ∧
      decode servicesOfJson? text = some services ∧
      (verbose = false → decode servicesOfJson? (run files arguments).output = some services) ∧
      (verbose = true → Value.ofText? (run files arguments).output = none) := by
  rw [run_eq_answer hrequest] at hcode ⊢
  obtain ⟨configuration, services, hload, hresult⟩ := answer_code_eq_zero_iff.1 hcode
  have houtput := @answer_json_output files verbose _ _ _ _ _ _ hload hresult
  refine ⟨configuration, services, _, hload, hresult, houtput, decode_servicesJson services,
    fun hverbose => ?_, fun hverbose => ?_⟩
  · rw [houtput, hverbose, preamble_false, String.empty_append]
    exact decode_servicesJson services
  · rw [houtput, hverbose]
    exact ofText?_preamble configuration directory _

end Runs

/-- A directory with one file, which declares a service. -/
def solitary : FileSystem where
  rootEntries := [("protos", .directory [("a.proto", .file "service S \x7b\x7d".toUTF8)])]
  workingDirectory := []

theorem solitary_code (verbose : Bool) :
    (Request.answer solitary ⟨verbose, .parse "protos" [] none false .json⟩).code = 0 := by
  have hresult : (catalog solitary {} "protos").result =
      .ok [{ name := "S", protoPackage := none, outputPackage := "", methods := [] }] := by
    cbv
  exact answer_code_eq_zero_iff.2 ⟨{}, _, rfl, hresult⟩

theorem solitary_json_output :
    Request.ofArguments ["parse", "--dir", "protos", "--output", "json"] =
        .ok ⟨false, .parse "protos" [] none false .json⟩ ∧
      (run solitary ["parse", "--dir", "protos", "--output", "json"]).code = 0 ∧
      ∃ configuration services,
        (Command.parse "protos" [] none false .json).configuration solitary =
          .ok configuration ∧
        (catalog solitary configuration "protos").result = .ok services ∧
        decode servicesOfJson?
          (run solitary ["parse", "--dir", "protos", "--output", "json"]).output =
            some services := by
  have hrequest : Request.ofArguments ["parse", "--dir", "protos", "--output", "json"] =
      .ok ⟨false, .parse "protos" [] none false .json⟩ := by
    cbv
  have hcode : (run solitary ["parse", "--dir", "protos", "--output", "json"]).code = 0 := by
    rw [run_eq_answer hrequest]
    exact solitary_code false
  obtain ⟨configuration, services, -, hload, hresult, -, -, hdecode, -⟩ :=
    run_json_output hrequest hcode
  exact ⟨hrequest, hcode, configuration, services, hload, hresult, hdecode rfl⟩

/-- The details of a run that succeeds stand on the output before its services. -/
theorem solitary_verbose_output :
    Request.ofArguments ["parse", "--dir", "protos", "--output", "json", "--verbose"] =
        .ok ⟨true, .parse "protos" [] none false .json⟩ ∧
      (run solitary ["parse", "--dir", "protos", "--output", "json", "--verbose"]).code = 0 ∧
      Value.ofText?
        (run solitary ["parse", "--dir", "protos", "--output", "json", "--verbose"]).output =
          none := by
  have hrequest :
      Request.ofArguments ["parse", "--dir", "protos", "--output", "json", "--verbose"] =
        .ok ⟨true, .parse "protos" [] none false .json⟩ := by
    cbv
  have hcode :
      (run solitary ["parse", "--dir", "protos", "--output", "json", "--verbose"]).code = 0 := by
    rw [run_eq_answer hrequest]
    exact solitary_code true
  refine ⟨hrequest, hcode, ?_⟩
  rw [run_eq_answer hrequest] at hcode ⊢
  obtain ⟨configuration, services, hload, hresult⟩ := answer_code_eq_zero_iff.1 hcode
  rw [answer_json_output hload hresult]
  exact ofText?_preamble configuration "protos" _

end RpcCatalog.CommandLine
