import RpcCatalog.Proofs.Extraction.Position
import RpcCatalog.Proofs.Grammar.Naming
import RpcCatalog.Proofs.References
import RpcCatalog.Proofs.Resolution

/-!
# Absolute names

What becomes of type names that begin with a dot, in files that differ in their packages only.

* `typeNames`: the type names in a service block, as written; `references_methodsFrom` says that
  they become the references of the service.
* `IsDeclaredAs`: a service comes from a block, whatever package is in force there.
* `SameButPackages`: declarations that differ in package statements only.
* `Workspace.extractSource_absoluteNames`: an absolute name with a further dot stands for the same
  reference in whatever package. One without is taken for a name of the package in force.
-/

set_option autoImplicit false

namespace RpcCatalog

open Grammar

/-! ## Type names of a service -/

def ServiceItem.typeNames : ServiceItem → List String
  | .rpc signature => [signature.requestType, signature.responseType]
  | .comment _ | .other => []

/-- The type names in a service block as they are written, call by call. -/
def typeNames (items : List ServiceItem) : List String := items.flatMap ServiceItem.typeNames

/-- The references of a service are its type names as seen from its package. -/
theorem references_methodsFrom (package : Option String) (pending : PendingComments)
    (items : List ServiceItem) :
    (methodsFrom package pending items).flatMap Method.references =
      (typeNames items).map (TypeReference.qualify · package) := by
  induction items generalizing pending with
  | nil => rfl
  | cons item items ih =>
    cases item with
    | comment text => exact ih _
    | other => exact ih _
    | rpc signature =>
      rw [methodsFrom, List.flatMap_cons, ih]
      rfl

theorem isTypeName_of_mem_typeNames {items : List ServiceItem}
    (h : ∀ item ∈ items, item.IsWellNamed) {text : String} (htext : text ∈ typeNames items) :
    IsTypeName text.toList := by
  obtain ⟨item, hitem, htext⟩ := List.mem_flatMap.1 htext
  cases item with
  | comment _ => cases htext
  | other => cases htext
  | rpc signature =>
    obtain ⟨-, hrequest, hresponse⟩ := h _ hitem
    rw [ServiceItem.typeNames, List.mem_cons, List.mem_singleton] at htext
    obtain rfl | rfl := htext
    · exact hrequest
    · exact hresponse

/-! ## Services of a file -/

namespace Declaration

/-- The name and the items of a service block. -/
def block? : Declaration → Option (String × List ServiceItem)
  | .service name items => some (name, items)
  | _ => none

end Declaration

/-- The service blocks of a file. -/
def blocksOf (declarations : List Declaration) : List (String × List ServiceItem) :=
  declarations.filterMap Declaration.block?

/-- The service comes from the block: its references are the type names of the block as seen from
the package that was in force. -/
structure IsDeclaredAs (block : String × List ServiceItem) (service : Service TypeReference) :
    Prop where
  name : service.name = block.1
  references : service.references =
    (typeNames block.2).map (TypeReference.qualify · service.protoPackage)

def Registration.service? : Registration → Option (Service TypeReference)
  | .service _ declared => some declared
  | .type .. => none

/-- The services that steps register of one text, in order. -/
def servicesFrom (source : Source) (steps : List Step) : List (Service TypeReference) :=
  (registrationsFrom source steps).filterMap Registration.service?

theorem forall₂_isDeclaredAs (file : String) (scope : FileScope)
    (declarations : List Declaration) :
    List.Forall₂ IsDeclaredAs (blocksOf declarations)
      (((scopedDeclarations scope declarations).filterMap fun (scope, declaration) =>
        scope.registration? file declaration).filterMap Registration.service?) := by
  induction declarations generalizing scope with
  | nil => exact .nil
  | cons declaration declarations ih =>
    have hrest := ih (scope.after declaration)
    cases declaration with
    | service name items => exact .cons ⟨rfl, references_methodsFrom _ _ _⟩ hrest
    | _ => exact hrest

/-! ## Packages -/

/-- Declarations that differ in their package statements only: in what these name, in where they
stand, or in whether there are any. -/
def SameButPackages (declarations declarations' : List Declaration) : Prop :=
  declarations.filter (·.packageName?.isNone) = declarations'.filter (·.packageName?.isNone)

theorem blocksOf_filter (declarations : List Declaration) :
    blocksOf (declarations.filter (·.packageName?.isNone)) = blocksOf declarations := by
  unfold blocksOf
  rw [List.filterMap_filter]
  refine List.filterMap_congr fun declaration _ => ?_
  cases declaration <;> rfl

theorem SameButPackages.blocksOf_eq {declarations declarations' : List Declaration}
    (h : SameButPackages declarations declarations') :
    blocksOf declarations' = blocksOf declarations := by
  rw [← blocksOf_filter, ← h, blocksOf_filter]

/-! ## Absolute names -/

namespace TypeReference

variable {text : String} {rest : List Char}

/-- The package of an absolute name with a further dot is what stands between its first and its last
dot. -/
theorem exists_qualify_of_dot_mem (htext : text.toList = '.' :: rest) (hrest : IsDotted rest)
    (hdot : '.' ∈ rest) :
    ∃ front last, rest = front ++ '.' :: last ∧ '.' ∉ last ∧
      ∀ package, qualify text package = ⟨String.ofList last, some (String.ofList front)⟩ := by
  obtain hname | ⟨front, last, hsplit, hfront, hlast⟩ := hrest.isName_or_exists
  · exact absurd hdot hname.dot_not_mem
  · have hchars : Text.dropLeading '.' text.toList = front ++ '.' :: last := by
      rw [htext, Text.dropLeading_cons_self, hsplit]
    refine ⟨front, last, hsplit, hlast.dot_not_mem, fun package => ?_⟩
    rw [qualify_eq, ofDotted_eq_of_append hchars hfront.ne_nil hlast.dot_not_mem, Option.some_or]

/-- An absolute name without a further dot is taken for a name of the package in force. -/
theorem qualify_of_dot_not_mem (htext : text.toList = '.' :: rest) (hdot : '.' ∉ rest)
    (package : Option String) : qualify text package = ⟨String.ofList rest, package⟩ := by
  have hchars : Text.dropLeading '.' text.toList = rest := by
    rw [htext, Text.dropLeading_cons_self]
  have htail : '.' ∉ (Text.dropLeading '.' text.toList).tail :=
    fun h => hdot (hchars ▸ List.mem_of_mem_tail h)
  rw [qualify_eq, ofDotted_eq_of_dot_not_mem htail, hchars, Option.none_or]

end TypeReference

namespace Workspace

theorem exists_servicesFrom (workspace : Workspace) (state : Extraction) (file : String)
    {source : String} {declarations : List Declaration}
    (h : parseDeclarations source = .ok declarations) :
    ∃ steps final, workspace.extractSource state file source = (.ok (), final) ∧
      workspace.Enters ⟨file, none⟩ state {} declarations steps final ∧
      List.Forall₂ IsDeclaredAs (blocksOf declarations) (servicesFrom ⟨file, none⟩ steps) := by
  obtain ⟨steps, final, hsteps, heq⟩ := workspace.exists_enters_extractSource state h
  refine ⟨steps, final, heq, hsteps, ?_⟩
  have hnone : ∀ path ∈ walkedPaths steps, (⟨file, none⟩ : Source) ≠ .ofPath path :=
    fun path _ e => by cases congrArg Source.path e
  rw [servicesFrom, registrationsFrom_eq, hsteps.own_entered hnone]
  exact forall₂_isDeclaredAs file {} declarations

/-- Two texts that differ in their packages only have the same service blocks, and in whatever runs
they are extracted, their services refer to the type names of these blocks, each as seen from the
package in force at the block. A name that begins with a dot and has another one stands for the same
reference in all packages: its package ends at the last dot. A name that begins with its only dot
stands for a name of the package in force. -/
theorem extractSource_absoluteNames {file source source' : String}
    {declarations declarations' : List Declaration}
    (h : parseDeclarations source = .ok declarations)
    (h' : parseDeclarations source' = .ok declarations')
    (hsame : SameButPackages declarations declarations')
    (workspace workspace' : Workspace) (state state' : Extraction) :
    (∃ steps final steps' final',
      workspace.extractSource state file source = (.ok (), final) ∧
      workspace.Enters ⟨file, none⟩ state {} declarations steps final ∧
      workspace'.extractSource state' file source' = (.ok (), final') ∧
      workspace'.Enters ⟨file, none⟩ state' {} declarations' steps' final' ∧
      List.Forall₂ IsDeclaredAs (blocksOf declarations) (servicesFrom ⟨file, none⟩ steps) ∧
      List.Forall₂ IsDeclaredAs (blocksOf declarations) (servicesFrom ⟨file, none⟩ steps')) ∧
    ∀ block ∈ blocksOf declarations, ∀ text ∈ typeNames block.2, ∀ rest,
      text.toList = '.' :: rest → IsDotted rest ∧
        ('.' ∈ rest → ∃ front last, rest = front ++ '.' :: last ∧ '.' ∉ last ∧
          ∀ package, TypeReference.qualify text package =
            ⟨String.ofList last, some (String.ofList front)⟩) ∧
        ('.' ∉ rest → ∀ package, TypeReference.qualify text package =
          ⟨String.ofList rest, package⟩) := by
  constructor
  · obtain ⟨steps, final, hextract, henters, hservices⟩ :=
      workspace.exists_servicesFrom state file h
    obtain ⟨steps', final', hextract', henters', hservices'⟩ :=
      workspace'.exists_servicesFrom state' file h'
    rw [hsame.blocksOf_eq] at hservices'
    exact ⟨steps, final, steps', final', hextract, henters, hextract', henters', hservices,
      hservices'⟩
  · intro block hblock text htext rest habsolute
    obtain ⟨declaration, hdeclaration, hblock⟩ := List.mem_filterMap.1 hblock
    cases declaration with
    | service name items =>
      cases hblock
      obtain ⟨-, hitems⟩ := isWellNamed_of_parseDeclarations h hdeclaration
      have hdotted := (isTypeName_of_mem_typeNames hitems htext).isDotted_dropLeading
      rw [habsolute, Text.dropLeading_cons_self] at hdotted
      exact ⟨hdotted, TypeReference.exists_qualify_of_dot_mem habsolute hdotted,
        TypeReference.qualify_of_dot_not_mem habsolute⟩
    | _ => cases hblock

end Workspace

/-- Imports lead nowhere, and there are no files. -/
def secluded : Workspace where
  files := { rootEntries := [], workingDirectory := [] }
  location _ := none

/-- A service with an absolute name that has a further dot. -/
def namingText : String := "package p; service S \x7b rpc M(.a.b.C) returns (D); \x7d"

/-- The same service, before the package is named, and with another one. -/
def renamingText : String := "service S \x7b rpc M(.a.b.C) returns (D); \x7d package q;"

theorem namingText_absoluteNames :
    parseDeclarations namingText =
        .ok [.package "p", .service "S" [.rpc ⟨"M", ".a.b.C", "D"⟩]] ∧
      parseDeclarations renamingText =
        .ok [.service "S" [.rpc ⟨"M", ".a.b.C", "D"⟩], .package "q"] ∧
      ∃ front last, "a.b.C".toList = front ++ '.' :: last ∧ '.' ∉ last ∧
        ∀ package, TypeReference.qualify ".a.b.C" package =
          ⟨String.ofList last, some (String.ofList front)⟩ := by
  have h : parseDeclarations namingText =
      .ok [.package "p", .service "S" [.rpc ⟨"M", ".a.b.C", "D"⟩]] := by
    cbv
  have h' : parseDeclarations renamingText =
      .ok [.service "S" [.rpc ⟨"M", ".a.b.C", "D"⟩], .package "q"] := by
    cbv
  obtain ⟨-, hnames⟩ := @Workspace.extractSource_absoluteNames "a.proto" _ _ _ _ h h' rfl
    secluded secluded { table := .empty } { table := .empty }
  obtain ⟨-, habsolute, -⟩ := hnames _ List.mem_cons_self ".a.b.C" List.mem_cons_self _ rfl
  exact ⟨h, h', habsolute (by decide)⟩

/-- An absolute name without a further dot does not stand for the same reference everywhere: it has
the package in force, and has none only where none is in force. -/
theorem absolute_name_taken_into_package :
    ((secluded.extractSource { table := .empty } "a.proto"
        "package p; service S \x7b rpc M(.A) returns (.A); \x7d").2.table.services.find?
          "a.proto").map Service.references = some [⟨"A", some "p"⟩, ⟨"A", some "p"⟩] ∧
      ((secluded.extractSource { table := .empty } "a.proto"
        "service S \x7b rpc M(.A) returns (.A); \x7d").2.table.services.find?
          "a.proto").map Service.references = some [⟨"A", none⟩, ⟨"A", none⟩] := by
  refine ⟨by cbv, by cbv⟩

end RpcCatalog
