import RpcCatalog.Proofs.Lists
import RpcCatalog.SymbolTable

/-!
# Histories of package overrides

The override of a package is set once: the first call for it decides, and a later one for another
target fails and changes nothing.

* `PackageOverrides.register_cases`: what a call can come to.
* `PackageOverrides.afterCalls`: overrides after calls of which some may fail.
* `PackageOverrides.registerAll_eq_ok_iff`: a list of calls succeeds if each of them has its target
  in the end.
* `SymbolTable.withOverrides_set_once`: all of this from the well-known override on, and that the
  order of calls that succeed does not count.
-/

set_option autoImplicit false

namespace RpcCatalog

namespace PackageOverrides

/-! ## Single calls -/

theorem ext_find? {overrides overrides' : PackageOverrides}
    (h : ∀ package, overrides.find? package = overrides'.find? package) :
    overrides = overrides' := by
  obtain ⟨targets⟩ := overrides
  obtain ⟨targets'⟩ := overrides'
  exact congrArg PackageOverrides.mk (NameMap.ext_find? h)

theorem find?_insert (overrides : PackageOverrides) (package target package' : String) :
    find? ⟨overrides.targets.insert package target⟩ package' =
      if package' = package then some target else overrides.find? package' :=
  NameMap.find?_insert _ _ _ _

/-- A call finds its target, or another one, or none. -/
theorem register_cases (overrides : PackageOverrides) (package target : String) :
    (overrides.find? package = some target ∧
      overrides.register package target = (.ok (), overrides)) ∨
    (∃ existing, overrides.find? package = some existing ∧ existing ≠ target ∧
      overrides.register package target =
        (.error (.conflictingOverride package existing target), overrides)) ∨
    (overrides.find? package = none ∧
      overrides.register package target =
        (.ok (), ⟨overrides.targets.insert package target⟩)) := by
  unfold register
  cases hfind : overrides.find? package with
  | none => exact .inr (.inr ⟨rfl, rfl⟩)
  | some existing =>
    by_cases heq : existing = target
    · subst heq
      exact .inl ⟨rfl, if_pos rfl⟩
    · exact .inr (.inl ⟨existing, rfl, heq, if_neg heq⟩)

theorem register_eq_error_iff {overrides : PackageOverrides} {package target : String}
    {e : CatalogError} :
    (overrides.register package target).1 = .error e ↔
      ∃ existing, overrides.find? package = some existing ∧ existing ≠ target ∧
        e = .conflictingOverride package existing target := by
  obtain ⟨hfind, hregister⟩ | ⟨existing, hfind, hne, hregister⟩ | ⟨hfind, hregister⟩ :=
    overrides.register_cases package target
  · rw [hregister, hfind]
    constructor
    · nofun
    · rintro ⟨existing, heq, hne, -⟩
      exact absurd (Option.some.inj heq).symm hne
  · rw [hregister, hfind]
    constructor
    · rintro ⟨⟩
      exact ⟨existing, rfl, hne, rfl⟩
    · rintro ⟨existing', heq, -, rfl⟩
      rw [Option.some.inj heq]
  · rw [hregister, hfind]
    constructor
    · nofun
    · rintro ⟨existing, heq, -⟩
      cases heq

/-- A call that fails changes nothing. -/
theorem register_unchanged {overrides : PackageOverrides} {package target : String}
    {e : CatalogError} (h : (overrides.register package target).1 = .error e) :
    (overrides.register package target).2 = overrides := by
  obtain ⟨-, hregister⟩ | ⟨existing, -, -, hregister⟩ | ⟨-, hregister⟩ :=
    overrides.register_cases package target
  · rw [hregister]
  · rw [hregister]
  · rw [hregister] at h
    cases h

/-! ## Calls one after another -/

/-- The overrides after a call, whether it succeeds or not. -/
def afterCall (overrides : PackageOverrides) (call : String × String) : PackageOverrides :=
  (overrides.register call.1 call.2).2

/-- The overrides after calls, whether they succeed or not. -/
def afterCalls (overrides : PackageOverrides) (calls : List (String × String)) :
    PackageOverrides :=
  calls.foldl afterCall overrides

section Calls

variable {overrides later : PackageOverrides} {calls : List (String × String)}

@[simp] theorem afterCalls_nil (overrides : PackageOverrides) :
    overrides.afterCalls [] = overrides := rfl

@[simp] theorem afterCalls_cons (overrides : PackageOverrides) (call : String × String)
    (calls : List (String × String)) :
    overrides.afterCalls (call :: calls) = (overrides.afterCall call).afterCalls calls := rfl

theorem afterCalls_concat (overrides : PackageOverrides) (calls : List (String × String))
    (call : String × String) :
    overrides.afterCalls (calls ++ [call]) = (overrides.afterCalls calls).afterCall call :=
  List.foldl_concat ..

theorem find?_afterCall (overrides : PackageOverrides) (call : String × String)
    (package : String) :
    (overrides.afterCall call).find? package =
      (overrides.find? package).or (if package = call.1 then some call.2 else none) := by
  unfold afterCall
  obtain ⟨hfind, hregister⟩ | ⟨existing, hfind, hne, hregister⟩ | ⟨hfind, hregister⟩ :=
    overrides.register_cases call.1 call.2
  · rw [hregister]
    by_cases hpackage : package = call.1
    · rw [hpackage, hfind, Option.some_or]
    · rw [if_neg hpackage, Option.or_none]
  · rw [hregister]
    by_cases hpackage : package = call.1
    · rw [hpackage, hfind, Option.some_or]
    · rw [if_neg hpackage, Option.or_none]
  · rw [hregister]
    dsimp only
    rw [find?_insert]
    by_cases hpackage : package = call.1
    · rw [if_pos hpackage, if_pos hpackage, hpackage, hfind, Option.none_or]
    · rw [if_neg hpackage, if_neg hpackage, Option.or_none]

/-- The target of a package is the one at the start, or else that of the first call for it. -/
theorem find?_afterCalls (overrides : PackageOverrides) (calls : List (String × String))
    (package : String) :
    (overrides.afterCalls calls).find? package =
      (overrides.find? package).or (calls.lookup package) := by
  induction calls generalizing overrides with
  | nil => exact (Option.or_none ..).symm
  | cons call calls ih =>
    rw [afterCalls_cons, ih, find?_afterCall, Option.or_assoc, List.lookup_cons]
    by_cases hpackage : package = call.1
    · simp [hpackage]
    · rw [if_neg hpackage, beq_eq_false_iff_ne.2 hpackage, Option.none_or]

theorem afterCall_of_register_eq {call : String × String} {result : Except CatalogError Unit}
    (h : overrides.register call.1 call.2 = (result, later)) :
    overrides.afterCall call = later := by
  rw [afterCall, h]

/-- Calls that succeed have their targets in the end, and only those do. -/
theorem registerAll_eq_ok_iff :
    overrides.registerAll calls = (.ok (), later) ↔
      later = overrides.afterCalls calls ∧
        ∀ call ∈ calls, (overrides.afterCalls calls).find? call.1 = some call.2 := by
  induction calls generalizing overrides with
  | nil => simp [registerAll, eq_comm]
  | cons call calls ih =>
    have hcall : ((overrides.afterCall call).afterCalls calls).find? call.1 =
        some ((overrides.find? call.1).getD call.2) := by
      rw [find?_afterCalls, find?_afterCall, if_pos rfl]
      cases overrides.find? call.1 <;> rfl
    rw [registerAll, List.forall_mem_cons, afterCalls_cons, hcall, Option.some.injEq]
    obtain ⟨hfind, hregister⟩ | ⟨existing, hfind, hne, hregister⟩ | ⟨hfind, hregister⟩ :=
      overrides.register_cases call.1 call.2
    · rw [afterCall_of_register_eq hregister, hregister, hfind]
      simp [ih]
    · rw [hregister, hfind]
      simp [hne]
    · rw [afterCall_of_register_eq hregister, hregister, hfind]
      simp [ih]

theorem find?_registerAll (h : overrides.registerAll calls = (.ok (), later))
    (package target : String) :
    later.find? package = some target ↔
      overrides.find? package = some target ∨ (package, target) ∈ calls := by
  obtain ⟨rfl, hcalls⟩ := registerAll_eq_ok_iff.1 h
  rw [find?_afterCalls]
  constructor
  · intro hor
    obtain hstart | ⟨-, hlookup⟩ := Option.or_eq_some_iff.1 hor
    · exact .inl hstart
    · exact .inr (List.mem_of_lookup_eq_some hlookup)
  · rintro (hstart | hmem)
    · rw [hstart, Option.some_or]
    · rw [← find?_afterCalls]
      exact hcalls _ hmem

end Calls

/-! ## From the well-known override on -/

/-- The well-known override, as a call for it. -/
def wellKnownCall : String × String := (wellKnownPackage, wellKnownOutputPackage)

theorem find?_wellKnown_afterCalls (calls : List (String × String)) (package : String) :
    (wellKnown.afterCalls calls).find? package = (wellKnownCall :: calls).lookup package := by
  have hstart : wellKnown.find? package =
      if package = wellKnownPackage then some wellKnownOutputPackage else none :=
    NameMap.find?_insert _ _ _ _
  rw [find?_afterCalls, hstart, wellKnownCall, List.lookup_cons]
  by_cases hpackage : package = wellKnownPackage
  · simp [hpackage]
  · rw [if_neg hpackage, beq_eq_false_iff_ne.2 hpackage, Option.none_or]

end PackageOverrides

namespace SymbolTable

open PackageOverrides

theorem withOverrides_eq_ok {entries : List (String × String)} {table : SymbolTable}
    (h : withOverrides entries = .ok table) :
    ∃ overrides, PackageOverrides.wellKnown.registerAll entries = (.ok (), overrides) ∧
      table = { empty with overrides } := by
  unfold withOverrides at h
  split at h
  · next overrides hall =>
    cases h
    exact ⟨overrides, hall, rfl⟩
  · cases h

theorem withOverrides_eq_ok_iff {calls : List (String × String)} {table : SymbolTable} :
    withOverrides calls = .ok table ↔
      (wellKnownCall :: calls).IsFunctional ∧
        table = { empty with overrides := wellKnown.afterCalls calls } := by
  have hfunctional : (∀ call ∈ calls, (wellKnown.afterCalls calls).find? call.1 = some call.2) ↔
      (wellKnownCall :: calls).IsFunctional := by
    rw [List.isFunctional_iff_lookup, List.forall_mem_cons]
    simp [find?_wellKnown_afterCalls, wellKnownCall]
  rw [← hfunctional]
  constructor
  · intro h
    obtain ⟨overrides, hall, rfl⟩ := withOverrides_eq_ok h
    obtain ⟨rfl, hcalls⟩ := registerAll_eq_ok_iff.1 hall
    exact ⟨hcalls, rfl⟩
  · rintro ⟨hcalls, rfl⟩
    rw [withOverrides, registerAll_eq_ok_iff.2 ⟨rfl, hcalls⟩]

/-- The target of each package is the well-known one, or else that of the first call for it. A call
fails exactly if its package has another target, and then changes nothing. A table is made from some
calls exactly if no two of them, with the well-known one, have different targets for a package; the
same table is then made from them in any other order. -/
theorem withOverrides_set_once (calls : List (String × String)) :
    (∀ package, (wellKnown.afterCalls calls).find? package =
      (wellKnownCall :: calls).lookup package) ∧
    (∀ package target e, ((wellKnown.afterCalls calls).register package target).1 = .error e ↔
      ∃ existing, (wellKnownCall :: calls).lookup package = some existing ∧ existing ≠ target ∧
        e = .conflictingOverride package existing target) ∧
    (∀ call e, ((wellKnown.afterCalls calls).register call.1 call.2).1 = .error e →
      ((wellKnown.afterCalls calls).register call.1 call.2).2 = wellKnown.afterCalls calls ∧
        wellKnown.afterCalls (calls ++ [call]) = wellKnown.afterCalls calls) ∧
    ((∃ table, withOverrides calls = .ok table) ↔
      ∀ call ∈ wellKnownCall :: calls, ∀ other ∈ wellKnownCall :: calls,
        call.1 = other.1 → call.2 = other.2) ∧
    ∀ table, withOverrides calls = .ok table →
      table = { empty with overrides := wellKnown.afterCalls calls } ∧
        ∀ calls' : List (String × String), calls'.Perm calls →
          withOverrides calls' = .ok table := by
  refine ⟨find?_wellKnown_afterCalls calls, ?_, ?_, ?_, ?_⟩
  · intro package target e
    rw [register_eq_error_iff, find?_wellKnown_afterCalls]
  · intro call e herror
    have hunchanged := register_unchanged herror
    exact ⟨hunchanged, (afterCalls_concat ..).trans hunchanged⟩
  · constructor
    · rintro ⟨table, htable⟩
      exact (withOverrides_eq_ok_iff.1 htable).1
    · intro hfunctional
      exact ⟨_, withOverrides_eq_ok_iff.2 ⟨hfunctional, rfl⟩⟩
  · intro table htable
    obtain ⟨hfunctional, rfl⟩ := withOverrides_eq_ok_iff.1 htable
    refine ⟨rfl, fun calls' hperm => ?_⟩
    have hperm' : (wellKnownCall :: calls').Perm (wellKnownCall :: calls) := hperm.cons _
    have hsame : wellKnown.afterCalls calls = wellKnown.afterCalls calls' := by
      refine PackageOverrides.ext_find? fun package => ?_
      rw [find?_wellKnown_afterCalls, find?_wellKnown_afterCalls,
        hfunctional.lookup_perm hperm']
    exact withOverrides_eq_ok_iff.2 ⟨hfunctional.perm hperm', by rw [hsame]⟩

/-- A package is mapped twice to the same output package, and the well-known one as it is. -/
def concurring : List (String × String) :=
  [("acme", "com.acme"), (wellKnownPackage, wellKnownOutputPackage), ("acme", "com.acme")]

theorem concurring_set_once :
    (wellKnown.afterCalls concurring).register "acme" "org.acme" =
      (.error (.conflictingOverride "acme" "com.acme" "org.acme"),
        wellKnown.afterCalls concurring) ∧
    wellKnown.afterCalls (concurring ++ [("acme", "org.acme")]) =
      wellKnown.afterCalls concurring ∧
    ∃ table, withOverrides concurring = .ok table ∧
      table.overrides.find? "acme" = some "com.acme" ∧
        withOverrides concurring.reverse = .ok table := by
  obtain ⟨hfind, herror, hunchanged, hok, hperm⟩ := withOverrides_set_once concurring
  have hconflict : ((wellKnown.afterCalls concurring).register "acme" "org.acme").1 =
      .error (.conflictingOverride "acme" "com.acme" "org.acme") :=
    (herror _ _ _).2 ⟨"com.acme", by decide, by decide, rfl⟩
  obtain ⟨hsame, hlater⟩ := hunchanged ("acme", "org.acme") _ hconflict
  obtain ⟨table, htable⟩ := hok.2 (by decide)
  obtain ⟨rfl, hordered⟩ := hperm table htable
  exact ⟨Prod.ext hconflict hsame, hlater, _, htable, (hfind "acme").trans (by decide),
    hordered _ concurring.reverse_perm⟩

end SymbolTable

end RpcCatalog
