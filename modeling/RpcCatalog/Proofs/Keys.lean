import Mathlib
import RpcCatalog.Proofs.Catalog.Types
import RpcCatalog.Proofs.Extraction.Position
import RpcCatalog.Proofs.Grammar.Naming
import RpcCatalog.Proofs.Growth
import RpcCatalog.Proofs.References

/-!
# Keys of symbol tables

A symbol table that is filled by extraction has only names for keys, so that no two packages share a
key, and the empty key is left to messages without a package.

* `textsOf`: the texts whose declarations a call enters. `Fills` is a list of calls on one table,
  with all the texts that they enter.
* `DeclaresMessage`: a text declares a message while a package is in force.
* `Fills.exists_replay`: what such calls do to a table is what the declarations of the texts do.
* `SymbolTable.extracted_isWellNamed`: the references in the table are well formed, and its messages
  are those that the texts declare, package by package.
-/

set_option autoImplicit false

namespace RpcCatalog

/-! ## Declarations of texts -/

theorem mem_scopedDeclarations {scope scope' : FileScope} {declarations : List Declaration}
    {declaration : Declaration} :
    (scope', declaration) ∈ scopedDeclarations scope declarations ↔
      ∃ front back, declarations = front ++ declaration :: back ∧
        front.foldl FileScope.after scope = scope' := by
  induction declarations generalizing scope with
  | nil => simp [scopedDeclarations]
  | cons first rest ih =>
    rw [scopedDeclarations, List.mem_cons, ih]
    constructor
    · rintro (heq | ⟨front, back, rfl, rfl⟩)
      · cases heq
        exact ⟨[], rest, rfl, rfl⟩
      · exact ⟨first :: front, back, rfl, rfl⟩
    · rintro ⟨front, back, heq, rfl⟩
      cases front with
      | nil =>
        cases heq
        exact .inl rfl
      | cons _ front =>
        cases heq
        exact .inr ⟨front, back, rfl, rfl⟩

/-- A message is declared while a package is in force, or while none is. -/
def DeclaresMessage (text : List Declaration) (package : Option String) (name : String) : Prop :=
  ∃ front back, text = front ++ .message name :: back ∧ packageAfter front = package

theorem exists_message_mem_iff {text : List Declaration} {package : Option String}
    {name : String} :
    (∃ scope, (scope, .message name) ∈ scopedDeclarations {} text ∧ scope.package = package) ↔
      DeclaresMessage text package name := by
  constructor
  · rintro ⟨scope, hmem, rfl⟩
    obtain ⟨front, back, rfl, rfl⟩ := mem_scopedDeclarations.1 hmem
    exact ⟨front, back, rfl, by rw [foldl_after]⟩
  · rintro ⟨front, back, rfl, rfl⟩
    exact ⟨_, mem_scopedDeclarations.2 ⟨front, back, rfl, rfl⟩, by rw [foldl_after]⟩

/-! ## Texts of calls -/

def Step.content? : Step → Option (List Declaration)
  | .met _ content => content
  | .entered .. => none

/-- What the files declare that steps open. -/
def contentsIn (steps : List Step) : List (List Declaration) := steps.filterMap Step.content?

@[simp] theorem contentsIn_append (steps steps' : List Step) :
    contentsIn (steps ++ steps') = contentsIn steps ++ contentsIn steps' := List.filterMap_append

@[simp] theorem contentsIn_entered (source : Source) (scope : FileScope) (declaration : Declaration)
    (steps : List Step) :
    contentsIn (.entered source scope declaration :: steps) = contentsIn steps := rfl

@[simp] theorem contentsIn_met_none (path : Path) (steps : List Step) :
    contentsIn (.met path none :: steps) = contentsIn steps := rfl

@[simp] theorem contentsIn_met_some (path : Path) (declarations : List Declaration)
    (steps : List Step) :
    contentsIn (.met path (some declarations) :: steps) = declarations :: contentsIn steps := rfl

theorem mem_contentsIn {text : List Declaration} {steps : List Step} :
    text ∈ contentsIn steps ↔ ∃ path, .met path (some text) ∈ steps := by
  unfold contentsIn
  rw [List.mem_filterMap]
  constructor
  · rintro ⟨step, hstep, h⟩
    cases step with
    | met path content =>
      cases h
      exact ⟨path, hstep⟩
    | entered source scope declaration => cases h
  · rintro ⟨path, h⟩
    exact ⟨_, h, rfl⟩

/-- What a given text declares, if it is well formed. -/
def Input.declarations? : Input → Option (List Declaration)
  | .file _ => none
  | .text _ source => (parseDeclarations source).toOption

/-- The texts whose declarations a call enters: the one that is given and those of the files that
are opened. -/
def textsOf (input : Input) (steps : List Step) : List (List Declaration) :=
  input.declarations?.toList ++ contentsIn steps

namespace Workspace

variable {workspace : Workspace} {state : Extraction} {steps : List Step}

theorem Enters.exists_entered_iff {source : Source} {final : Extraction} {scope : FileScope}
    {declarations : List Declaration}
    (h : workspace.Enters source state scope declarations steps final) {scope' : FileScope}
    {declaration : Declaration} :
    (∃ source', .entered source' scope' declaration ∈ steps) ↔
      (scope', declaration) ∈ scopedDeclarations scope declarations ∨
        ∃ text ∈ contentsIn steps, (scope', declaration) ∈ scopedDeclarations {} text := by
  induction h with
  | nil => simp [scopedDeclarations, contentsIn]
  | own _ _ ih => simp [scopedDeclarations, exists_or, ih, or_assoc]
  | @passed _ _ _ _ scope imported _ _ _ _ ih =>
    have hafter : scope.after (.importing imported) = scope := rfl
    simp [scopedDeclarations, exists_or, ih, or_assoc, hafter]
  | @failed _ _ _ _ scope imported _ _ _ _ _ ih =>
    have hafter : scope.after (.importing imported) = scope := rfl
    simp [scopedDeclarations, exists_or, ih, or_assoc, hafter]
  | @opened _ _ _ _ _ scope imported _ _ _ _ _ _ _ _ ihwalk ihnext =>
    have hafter : scope.after (.importing imported) = scope := rfl
    simp [scopedDeclarations, exists_or, ihwalk, ihnext, hafter, or_and_right, or_assoc,
      or_left_comm]

theorem Extracts.exists_entered_iff {path : Path}
    {outcome : Except CatalogError Unit × Extraction}
    (h : workspace.Extracts state path steps outcome) {scope : FileScope}
    {declaration : Declaration} :
    (∃ source, .entered source scope declaration ∈ steps) ↔
      ∃ text ∈ contentsIn steps, (scope, declaration) ∈ scopedDeclarations {} text := by
  cases h with
  | passed => simp [contentsIn]
  | failed => simp [contentsIn, Step.content?]
  | opened _ walk => simp [walk.exists_entered_iff]

section Calls

variable {input : Input} {outcome : Except CatalogError Unit × Extraction}

/-- A call enters the declarations of its texts, each as it stands in its text. -/
theorem Calls.exists_entered_iff (h : workspace.Calls state input steps outcome)
    {scope : FileScope} {declaration : Declaration} :
    (∃ source, .entered source scope declaration ∈ steps) ↔
      ∃ text ∈ textsOf input steps, (scope, declaration) ∈ scopedDeclarations {} text := by
  cases h with
  | file call => exact call.exists_entered_iff
  | malformed hparse => simp [textsOf, Input.declarations?, hparse, Except.toOption, contentsIn]
  | wellFormed hparse walk =>
    simp [textsOf, Input.declarations?, hparse, Except.toOption, walk.exists_entered_iff]

/-- What is entered of a file is what is parsed of it. -/
theorem Calls.exists_parse (h : workspace.Calls state input steps outcome)
    {text : List Declaration} (htext : text ∈ textsOf input steps) :
    ∃ source, parseDeclarations source = .ok text := by
  have hcontent : ∀ {path content}, .met path content ∈ steps →
      content = workspace.files.declarationsAt path := by
    cases h with
    | file call => exact call.walks.content
    | malformed => exact fun hmet => (List.not_mem_nil hmet).elim
    | wellFormed _ walk => exact walk.content
  obtain htext | htext := List.mem_append.1 htext
  · cases input with
    | file path => cases htext
    | text name source =>
      refine ⟨source, ?_⟩
      rw [Input.declarations?, Option.mem_toList] at htext
      cases hparse : parseDeclarations source with
      | error e =>
        rw [hparse] at htext
        cases htext
      | ok declarations =>
        rw [hparse] at htext
        exact congrArg Except.ok (Option.some.inj htext)
  · obtain ⟨path, hmet⟩ := mem_contentsIn.1 htext
    obtain ⟨source, -, hparse⟩ := FileSystem.parse_of_declarationsAt (hcontent hmet).symm
    exact ⟨source, hparse⟩

end Calls

end Workspace

/-! ## Tables that calls fill -/

/-- A call that extracts into a table, in a run that may be under way. -/
structure Call where
  workspace : Workspace
  extraction : Extraction
  input : Input

def Call.operation (call : Call) : SymbolTable.Operation :=
  .extract call.workspace call.extraction call.input

/-- Calls are made on a table, one after another, and enter some texts. -/
inductive Fills : SymbolTable → List Call → List (List Declaration) → Prop where
  | nil {table : SymbolTable} : Fills table [] []
  | cons {table : SymbolTable} {call : Call} {calls : List Call} {steps : List Step}
    {outcome : Except CatalogError Unit × Extraction} {texts : List (List Declaration)}
    (first : call.workspace.Calls { call.extraction with table } call.input steps outcome)
    (next : Fills outcome.2.table calls texts) :
    Fills table (call :: calls) (textsOf call.input steps ++ texts)

theorem exists_fills (table : SymbolTable) (calls : List Call) :
    ∃ texts, Fills table calls texts := by
  induction calls generalizing table with
  | nil => exact ⟨[], .nil⟩
  | cons call calls ih =>
    obtain ⟨steps, hsteps⟩ := call.workspace.exists_calls { call.extraction with table } call.input
    obtain ⟨texts, htexts⟩ := ih _
    exact ⟨_, .cons hsteps htexts⟩

section Fills

variable {table : SymbolTable} {calls : List Call} {texts : List (List Declaration)}

theorem Fills.unique {texts' : List (List Declaration)} (h : Fills table calls texts)
    (h' : Fills table calls texts') : texts = texts' := by
  induction h generalizing texts' with
  | nil =>
    cases h'
    rfl
  | cons first _ ih =>
    cases h' with
    | cons first' next' =>
      obtain ⟨rfl, rfl⟩ := first.unique first'
      rw [ih next']

theorem Fills.exists_replay (h : Fills table calls texts) :
    ∃ steps, table.afterAll (calls.map Call.operation) = table.replay steps ∧
      ∀ scope declaration, (∃ source, .entered source scope declaration ∈ steps) ↔
        ∃ text ∈ texts, (scope, declaration) ∈ scopedDeclarations {} text := by
  induction h with
  | nil => exact ⟨[], rfl, by simp⟩
  | @cons table call calls inner outcome texts first _ ih =>
    obtain ⟨steps, htable, hentered⟩ := ih
    refine ⟨inner ++ steps, ?_, fun scope declaration => ?_⟩
    · have hafter : table.after call.operation = outcome.2.table := by
        rw [Call.operation, SymbolTable.after, first.extract_eq]
      rw [List.map_cons, SymbolTable.afterAll, List.foldl_cons, hafter, ← SymbolTable.afterAll,
        htable, first.table_eq, SymbolTable.replay_append]
    · simp only [List.mem_append, exists_or, first.exists_entered_iff, hentered, or_and_right]

theorem Fills.exists_parse (h : Fills table calls texts) {text : List Declaration}
    (htext : text ∈ texts) : ∃ source, parseDeclarations source = .ok text := by
  induction h with
  | nil => cases htext
  | cons first _ ih => exact (List.mem_append.1 htext).elim first.exists_parse ih

theorem Fills.isWellNamed (h : Fills table calls texts) {text : List Declaration}
    (htext : text ∈ texts) : ∀ declaration ∈ text, declaration.IsWellNamed := by
  obtain ⟨source, hparse⟩ := h.exists_parse htext
  exact fun _ => isWellNamed_of_parseDeclarations hparse

end Fills

/-! ## What the tables hold -/

/-- The types that a service refers to are those of its calls, seen from the package in force. -/
theorem exists_qualify_of_mem_references {scope : FileScope} {name : String}
    {items : List ServiceItem} (hitems : ∀ item ∈ items, item.IsWellNamed)
    {reference : TypeReference} (h : reference ∈ (scope.service name items).references) :
    ∃ text, Grammar.IsTypeName text.toList ∧ reference = .qualify text scope.package := by
  obtain ⟨method, hmethod, hreference⟩ := List.mem_flatMap.1 h
  obtain ⟨signature, hsignature, hrequest, hresponse⟩ := methodsOf_types hmethod
  obtain ⟨-, hrequestType, hresponseType⟩ := hitems _ hsignature
  rw [Method.references, hrequest, hresponse, List.singleton_append, List.mem_cons,
    List.mem_singleton] at hreference
  obtain rfl | rfl := hreference
  · exact ⟨_, hrequestType, rfl⟩
  · exact ⟨_, hresponseType, rfl⟩

namespace SymbolTable

/-- A table with overrides and nothing else. -/
def unfilled (overrides : PackageOverrides) : SymbolTable := { empty with overrides }

variable {overrides : PackageOverrides} {calls : List Call} {texts : List (List Declaration)}

/-- No package has the name that stands for none in the keys. -/
theorem isSome_find?_unfilled_iff (h : Fills (unfilled overrides) calls texts)
    {package : Option String} (hpackage : package ≠ some "") (name : String) :
    (((unfilled overrides).afterAll (calls.map Call.operation)).types.find? package name).isSome ↔
      ∃ text ∈ texts, DeclaresMessage text package name := by
  obtain ⟨steps, htable, hentered⟩ := h.exists_replay
  have hnone : (unfilled overrides).types.find? package name = none := rfl
  rw [htable, isSome_find?_replay, hnone]
  simp only [Option.isSome_none, Bool.false_eq_true, false_or, ← exists_message_mem_iff]
  constructor
  · rintro ⟨source, scope, hmem, hkey⟩
    obtain ⟨text, htext, hmem⟩ := (hentered scope _).1 ⟨source, hmem⟩
    have hscope := package_ne_of_mem_scopedDeclarations (h.isWellNamed htext) hmem
    exact ⟨text, htext, scope, hmem, eq_of_getD_eq hkey hscope hpackage⟩
  · rintro ⟨text, htext, scope, hmem, rfl⟩
    obtain ⟨source, hmem⟩ := (hentered scope _).2 ⟨text, htext, hmem⟩
    exact ⟨source, scope, hmem, rfl⟩

theorem isWellFormed_of_mem_references (h : Fills (unfilled overrides) calls texts) {file : String}
    {service : Service TypeReference}
    (hservice : ((unfilled overrides).afterAll (calls.map Call.operation)).services.find? file =
      some service) {reference : TypeReference} (hreference : reference ∈ service.references) :
    reference.IsWellFormed := by
  obtain ⟨steps, htable, hentered⟩ := h.exists_replay
  have hnone : (unfilled overrides).services.find? file = none := rfl
  rw [htable, find?_replay, hnone, Option.or_none] at hservice
  obtain ⟨⟨source, service⟩, hlast, rfl⟩ := Option.map_eq_some_iff.1 hservice
  obtain ⟨-, hdeclared⟩ := mem_servicesUnder.1 (List.mem_of_getLast? hlast)
  obtain ⟨⟨scope, declaration⟩, hmem, hdeclaration⟩ := List.mem_filterMap.1 hdeclared
  obtain ⟨text, htext, hscoped⟩ := (hentered scope declaration).1 ⟨source, mem_enteredFrom.1 hmem⟩
  have hnamed := h.isWellNamed htext
  cases declaration with
  | service name items =>
    cases hdeclaration
    obtain ⟨front, back, rfl, -⟩ := mem_scopedDeclarations.1 hscoped
    obtain ⟨-, hitems⟩ := hnamed (.service name items) (by simp)
    obtain ⟨text, htype, rfl⟩ := exists_qualify_of_mem_references hitems hreference
    exact TypeReference.qualify_isWellFormed htype fun package hpackage =>
      isDotted_of_mem_scopedDeclarations hnamed hscoped hpackage
  | _ => cases hdeclaration

/-- The names in accepted texts are well formed, and so are the keys of the tables that are filled
from them. Whatever calls are made on a table without messages and services, the references in its
services have a name without dots, and a package only with a name. The calls enter certain texts, and
the messages under a package, or under none, are those that these texts declare while that package,
or none, is in force. -/
theorem extracted_isWellNamed (overrides : PackageOverrides) (calls : List Call) :
    (∀ source ds, parseDeclarations source = .ok ds → ∀ d ∈ ds, d.IsWellNamed) ∧
    ∃ texts, (∀ texts', Fills (unfilled overrides) calls texts' ↔ texts' = texts) ∧
      (∀ file service,
        ((unfilled overrides).afterAll (calls.map Call.operation)).services.find? file =
          some service → ∀ reference ∈ service.references,
            reference.IsWellFormed ∧ reference.name ≠ "" ∧ '.' ∉ reference.name.toList) ∧
      (∀ package, package ≠ some "" → ∀ name,
        ((((unfilled overrides).afterAll (calls.map Call.operation)).types.find? package
          name).isSome ↔ ∃ text ∈ texts, DeclaresMessage text package name)) ∧
      ∀ text ∈ texts, ∀ name, ¬ DeclaresMessage text (some "") name := by
  obtain ⟨texts, h⟩ := exists_fills (unfilled overrides) calls
  refine ⟨fun _ _ hparse _ => isWellNamed_of_parseDeclarations hparse, texts, fun texts' => ?_,
    fun file service hservice reference hreference => ?_,
    fun package hpackage => isSome_find?_unfilled_iff h hpackage, fun text htext name hempty => ?_⟩
  · exact ⟨fun h' => h'.unique h, fun heq => heq ▸ h⟩
  · have hwell := isWellFormed_of_mem_references h hservice hreference
    exact ⟨hwell, fun hname => hwell.name.ne_nil (by rw [hname]; rfl), hwell.name.dot_not_mem⟩
  · obtain ⟨scope, hmem, hpackage⟩ := exists_message_mem_iff.2 hempty
    exact package_ne_of_mem_scopedDeclarations (h.isWellNamed htext) hmem hpackage

end SymbolTable

end RpcCatalog
