import Mathlib
import RpcCatalog.Proofs.Extraction.Input

/-!
# Declarations by position

What a declaration of a file registers is decided by the declarations that stand in front of it in
the same file, whatever the imports among them lead to.

* `registrationAt?`: what a declaration registers behind some others, without any running state.
  `registrationsOf` is what a whole file registers.
* `foldl_after`: what the running state of a file comes to, in the same terms.
* `registrations`, `registrationsFrom`: what the steps of a run register, and what of it is from one
  text. A run puts exactly that into the table, in order (`SymbolTable.replay_eq_foldl`).
* `Workspace.extractSource_registrations`: of a text its own registrations are registered, and of
  every file that it leads to likewise.
-/

set_option autoImplicit false

namespace RpcCatalog

/-- What is put into a symbol table. -/
inductive Registration where
  | type (package : Option String) (name : String) (entry : TypeEntry)
  | service (file : String) (service : Service TypeReference)
  deriving DecidableEq

def Registration.apply (table : SymbolTable) : Registration → SymbolTable
  | .type package name entry => table.registerType package name entry
  | .service file declared => table.registerService file declared

/-! ## Registrations by position -/

namespace Declaration

def packageName? : Declaration → Option String
  | .package name => some name
  | _ => none

def outputPackage? : Declaration → Option String
  | .option name value => if name = outputPackageOption then some value else none
  | _ => none

def comment? : Declaration → Option String
  | .comment text => some text
  | _ => none

def isService : Declaration → Bool
  | .service .. => true
  | _ => false

end Declaration

/-- The package behind some declarations: the last one that is named. -/
def packageAfter (front : List Declaration) : Option String :=
  (front.filterMap Declaration.packageName?).getLast?

def outputOptionAfter (front : List Declaration) : Option String :=
  (front.filterMap Declaration.outputPackage?).getLast?

def outputPackageAfter (front : List Declaration) : String :=
  ((outputOptionAfter front).or (packageAfter front)).getD ""

/-- What the comments behind the last service say. -/
def commentsAfter (front : List Declaration) : List String :=
  ((front.rtakeWhile fun declaration => !declaration.isService).filterMap
    Declaration.comment?).map commentText

/-- What a declaration registers that stands in a file behind some others. -/
def registrationAt? (file : String) (front : List Declaration) : Declaration → Option Registration
  | .message name =>
    some (.type (packageAfter front) name { outputPackage := outputPackageAfter front, name })
  | .service name items =>
    some (.service file
      { name
        protoPackage := packageAfter front
        outputPackage := outputPackageAfter front
        methods := methodsOf (packageAfter front) items
        comments := commentsAfter front })
  | _ => none

/-- What the declarations of a file register, each by its position. -/
def registrationsOf (file : String) (declarations : List Declaration) : List Registration :=
  declarations.zipIdx.filterMap fun (declaration, i) =>
    registrationAt? file (declarations.take i) declaration

/-! ## The running state of a file -/

section Concat

variable (front : List Declaration) (declaration : Declaration)

theorem packageAfter_concat :
    packageAfter (front ++ [declaration]) = declaration.packageName?.or (packageAfter front) := by
  rw [packageAfter, List.filterMap_append, List.getLast?_append]
  cases declaration <;> rfl

theorem outputOptionAfter_concat :
    outputOptionAfter (front ++ [declaration]) =
      declaration.outputPackage?.or (outputOptionAfter front) := by
  rw [outputOptionAfter, List.filterMap_append, List.getLast?_append, List.filterMap_cons]
  cases declaration.outputPackage? <;> rfl

theorem commentsAfter_concat :
    commentsAfter (front ++ [declaration]) =
      if declaration.isService then []
      else commentsAfter front ++ declaration.comment?.toList.map commentText := by
  cases declaration <;>
    simp [commentsAfter, Declaration.isService, Declaration.comment?]

end Concat

theorem foldl_after (front : List Declaration) :
    front.foldl FileScope.after {} =
      { package := packageAfter front
        outputOption := outputOptionAfter front
        comments := ⟨commentsAfter front⟩ } := by
  induction front using List.reverseRecOn with
  | nil => simp [packageAfter, outputOptionAfter, commentsAfter]
  | append_singleton front declaration ih =>
    rw [List.foldl_append, ih, packageAfter_concat, outputOptionAfter_concat, commentsAfter_concat]
    cases declaration with
    | option name value =>
      by_cases hname : name = outputPackageOption <;>
        simp [FileScope.after, Declaration.packageName?, Declaration.outputPackage?,
          Declaration.isService, Declaration.comment?, hname]
    | _ =>
      simp [FileScope.after, Declaration.packageName?, Declaration.outputPackage?,
        Declaration.isService, Declaration.comment?, PendingComments.push, PendingComments.empty]

theorem scopedDeclarations_foldl_after (front declarations : List Declaration) :
    scopedDeclarations (front.foldl FileScope.after {}) declarations =
      declarations.zipIdx.map fun (declaration, i) =>
        ((front ++ declarations.take i).foldl FileScope.after {}, declaration) := by
  induction declarations generalizing front with
  | nil => rfl
  | cons declaration declarations ih =>
    have hnext : (front.foldl FileScope.after {}).after declaration =
        (front ++ [declaration]).foldl FileScope.after {} := by
      rw [List.foldl_append]
      rfl
    rw [scopedDeclarations, hnext, ih, List.zipIdx_cons, List.zipIdx_succ]
    simp [Function.comp_def]

/-! ## Registrations in steps -/

/-- What a declaration registers, given what those before it say. -/
def FileScope.registration? (file : String) (scope : FileScope) : Declaration → Option Registration
  | .message name => some (.type scope.package name { outputPackage := scope.outputPackage, name })
  | .service name items => some (.service file (scope.service name items))
  | _ => none

theorem registration?_foldl_after (file : String) (front : List Declaration)
    (declaration : Declaration) :
    (front.foldl FileScope.after {}).registration? file declaration =
      registrationAt? file front declaration := by
  rw [foldl_after]
  cases declaration <;> rfl

theorem filterMap_scopedDeclarations (file : String) (declarations : List Declaration) :
    (scopedDeclarations {} declarations).filterMap (fun (scope, declaration) =>
      scope.registration? file declaration) = registrationsOf file declarations := by
  have hscoped := scopedDeclarations_foldl_after [] declarations
  rw [List.foldl_nil] at hscoped
  simp only [hscoped, List.filterMap_map, Function.comp_def, List.nil_append,
    registration?_foldl_after, registrationsOf]

/-- What a step registers, with the text that it is from. -/
def Step.registration? : Step → Option (Source × Registration)
  | .met .. => none
  | .entered source scope declaration =>
    (scope.registration? source.name declaration).map (source, ·)

/-- What steps register, in order, each with the text that it is from. -/
def registrations (steps : List Step) : List (Source × Registration) :=
  steps.filterMap Step.registration?

/-- What steps register of one text, in order. -/
def registrationsFrom (source : Source) (steps : List Step) : List Registration :=
  ((registrations steps).filter (·.1 = source)).map Prod.snd

theorem SymbolTable.replay_eq_foldl (table : SymbolTable) (steps : List Step) :
    table.replay steps = ((registrations steps).map Prod.snd).foldl Registration.apply table := by
  induction steps generalizing table with
  | nil => rfl
  | cons step steps ih =>
    rw [replay_cons, ih]
    cases step with
    | met path content => rfl
    | entered source scope declaration => cases declaration <;> rfl

theorem exists_entered_of_mem_registrations {steps : List Step} {entry : Source × Registration}
    (h : entry ∈ registrations steps) :
    ∃ scope declaration, .entered entry.1 scope declaration ∈ steps := by
  obtain ⟨step, hstep, hentry⟩ := List.mem_filterMap.1 h
  cases step with
  | met path content => cases hentry
  | entered source scope declaration =>
    obtain ⟨registration, -, rfl⟩ := Option.map_eq_some_iff.1 hentry
    exact ⟨scope, declaration, hstep⟩

theorem registrationsFrom_eq (source : Source) (steps : List Step) :
    registrationsFrom source steps = (enteredFrom source steps).filterMap
      fun (scope, declaration) => scope.registration? source.name declaration := by
  induction steps with
  | nil => rfl
  | cons step steps ih =>
    cases step with
    | met path content => exact ih
    | entered source' scope declaration =>
      unfold registrationsFrom registrations at ih ⊢
      rw [List.filterMap_cons, Step.registration?]
      by_cases hsource : source' = source
      · subst hsource
        rw [enteredFrom_entered_self, List.filterMap_cons, ← ih]
        cases h : scope.registration? source'.name declaration <;> simp [h]
      · rw [enteredFrom_entered_of_ne hsource, ← ih]
        cases scope.registration? source'.name declaration <;> simp [hsource]

/-! ## Registrations of a run -/

namespace Workspace

variable {workspace : Workspace}

/-- Extracting a text registers what its declarations register by their positions, whatever the
imports among them lead to. The files that are opened on the way do likewise, and nothing else is
registered. -/
theorem extractSource_registrations (workspace : Workspace) (state : Extraction)
    {file text : String} {declarations : List Declaration}
    (h : parseDeclarations text = .ok declarations) :
    ∃ steps final, workspace.extractSource state file text = (.ok (), final) ∧
      workspace.Enters ⟨file, none⟩ state {} declarations steps final ∧
      final.table = ((registrations steps).map Prod.snd).foldl Registration.apply state.table ∧
      registrationsFrom ⟨file, none⟩ steps = registrationsOf file declarations ∧
      (∀ entry ∈ registrations steps,
        entry.1 = ⟨file, none⟩ ∨ ∃ path ∈ walkedPaths steps, entry.1 = .ofPath path) ∧
      ∀ path ∈ walkedPaths steps, ∃ content, workspace.files.declarationsAt path = some content ∧
        registrationsFrom (.ofPath path) steps = registrationsOf path.baseName content := by
  obtain ⟨steps, final, hsteps, heq⟩ := workspace.exists_enters_extractSource state h
  -- A file has a path, and the given text has none.
  have hnone : ∀ path ∈ walkedPaths steps, (⟨file, none⟩ : Source) ≠ .ofPath path :=
    fun path _ e => by cases congrArg Source.path e
  refine ⟨steps, final, heq, hsteps, ?_, ?_, fun entry hentry => ?_, fun path hpath => ?_⟩
  · rw [hsteps.table_eq, SymbolTable.replay_eq_foldl]
  · rw [registrationsFrom_eq, hsteps.own_entered hnone, filterMap_scopedDeclarations]
  · obtain ⟨scope, declaration, hentered⟩ := exists_entered_of_mem_registrations hentry
    exact hsteps.entered_source hentered
  · obtain ⟨content, hmet⟩ := mem_walkedPaths.1 hpath
    have hcontent := (hsteps.content hmet).symm
    refine ⟨content, hcontent, ?_⟩
    rw [registrationsFrom_eq,
      hsteps.walked_entered hsteps.walkedPaths_nodup hnone hpath hcontent]
    exact filterMap_scopedDeclarations path.baseName content

/-- An imported file that says much about declarations of its own. -/
def talkative : Workspace where
  files :=
    { rootEntries :=
        [("x.proto", .file
          "package q; option java_package = \"k\"; message X \x7b\x7d // Of X\n".toUTF8)]
      workingDirectory := [] }
  location imported := some ("/" ++ imported)

/-- A text that imports it. -/
def quietText : String :=
  "package p; // Of S\n import \"x.proto\"; message A \x7b\x7d service S \x7b\x7d"

theorem quietText_registrations :
    parseDeclarations quietText = .ok
      [.package "p", .comment "// Of S", .importing "x.proto", .message "A", .service "S" []] ∧
    ∃ steps final,
      talkative.extractSource { table := .empty } "a.proto" quietText = (.ok (), final) ∧
      registrationsFrom ⟨"a.proto", none⟩ steps =
        [.type (some "p") "A" { outputPackage := "p", name := "A" },
          .service "a.proto"
            { name := "S"
              protoPackage := some "p"
              outputPackage := "p"
              methods := []
              comments := ["Of S"] }] := by
  have hparse : parseDeclarations quietText = .ok
      [.package "p", .comment "// Of S", .importing "x.proto", .message "A", .service "S" []] := by
    cbv
  obtain ⟨steps, final, hcall, -, -, hown, -, -⟩ :=
    @extractSource_registrations talkative { table := .empty } "a.proto" _ _ hparse
  refine ⟨hparse, steps, final, hcall, ?_⟩
  rw [hown]
  cbv

end Workspace

end RpcCatalog
