import Mathlib.Data.List.Lex
import RpcCatalog.Proofs.FileSystem.Descent

/-!
# The order of paths

Paths in the order of their components, and names in the order of their bytes.

* `Path.Precedes`: the order of paths, component by component.
* `Path.components_child`, `Path.components_descend`: the components of paths that go on by names.
-/

set_option autoImplicit false

namespace RpcCatalog

/-- What kind of component comes first in the order. -/
def PathComponent.rank : PathComponent → Nat
  | root => 0
  | current => 1
  | parent => 2
  | name _ => 3

/-- The order of components: names come last, in the order of their bytes. -/
inductive PathComponent.Precedes : PathComponent → PathComponent → Prop
  | rank {a b : PathComponent} : a.rank < b.rank → Precedes a b
  | name {a b : FileName} : a.bytes < b.bytes → Precedes (.name a) (.name b)

namespace Path

/-! ## The order -/

/-- The order of paths, component by component; a path comes before those that go on from it. -/
def Precedes (path path' : Path) : Prop :=
  List.Lex PathComponent.Precedes path.components path'.components

theorem Precedes.irrefl (path : Path) : ¬path.Precedes path := by
  refine List.lex_irrefl (fun component h => ?_) _
  cases h with
  | rank h => exact Nat.lt_irrefl _ h
  | name h => exact List.lt_irrefl _ h

theorem precedes_of_components_eq_append {path path' : Path} {component : PathComponent}
    {back : List PathComponent} (h : path'.components = path.components ++ component :: back) :
    path.Precedes path' := by
  have hlex : List.Lex PathComponent.Precedes (path.components ++ [])
      (path.components ++ component :: back) := List.Lex.append_left _ .nil _
  rwa [List.append_nil, ← h] at hlex

theorem precedes_of_name_lt {path path' : Path} {front back back' : List PathComponent}
    {name name' : FileName} (h : path.components = front ++ .name name :: back)
    (h' : path'.components = front ++ .name name' :: back') (hlt : name < name') :
    path.Precedes path' := by
  rw [Precedes, h, h']
  exact List.Lex.append_left _ (.rel (.name hlt)) _

/-! ## Components of paths that go on -/

/-- The components that segments stand for. -/
def componentsFrom (leading : Bool) : List FileName → List PathComponent
  | [] => []
  | segment :: segments => (componentOf leading segment).toList ++ componentsFrom false segments

theorem map_fst_spansFrom (front : List FileName) (leading : Bool) (segments : List FileName) :
    (spansFrom front leading segments).map Prod.fst = componentsFrom leading segments := by
  induction segments generalizing front leading with
  | nil => rfl
  | cons segment segments ih =>
    rw [spansFrom, componentsFrom, ← ih]
    cases componentOf leading segment <;> rfl

theorem components_eq (path : Path) :
    path.components = bif path.isAbsolute then .root :: componentsFrom false path.segments
      else componentsFrom true path.segments := by
  unfold components spans
  cases path.isAbsolute with
  | true => exact congrArg _ (map_fst_spansFrom _ _ _)
  | false => exact map_fst_spansFrom _ _ _

theorem componentsFrom_append (leading : Bool) {segments : List FileName} (h : segments ≠ [])
    (segments' : List FileName) :
    componentsFrom leading (segments ++ segments') =
      componentsFrom leading segments ++ componentsFrom false segments' := by
  induction segments generalizing leading with
  | nil => exact absurd rfl h
  | cons segment segments ih =>
    rw [List.cons_append, componentsFrom, componentsFrom, List.append_assoc]
    cases segments with
    | nil => rfl
    | cons segment' segments => rw [ih false (by simp)]

theorem componentsFrom_name {name : FileName} (hname : IsEntryName name) :
    componentsFrom false [name] = [.name name] := by
  rw [componentsFrom, componentsFrom, componentOf, if_neg hname.ne_empty,
    if_neg hname.ne_current, if_neg hname.ne_parent]
  rfl

/-- The segments that stay in front when a path goes on say all that the path does. -/
theorem componentsFrom_stem {base : Path} (hbase : base.isEmpty = false) (leading : Bool) :
    base.stem ≠ [] ∧ componentsFrom leading base.segments = componentsFrom leading base.stem := by
  have hempty := mt isEmpty_iff.2 (Bool.eq_false_iff.1 hbase)
  rw [not_or] at hempty
  obtain h | h := base.segments_eq_stem <;> rw [h] at hempty ⊢
  · exact ⟨hempty.1, rfl⟩
  · have hstem : base.stem ≠ [] := fun e => hempty.2 (by rw [e]; rfl)
    exact ⟨hstem, (componentsFrom_append _ hstem _).trans (List.append_nil _)⟩

/-- A path that goes on by a name has that name as one more component. -/
theorem components_child {base : Path} (hbase : base.isEmpty = false) {name : FileName}
    (hname : IsEntryName name) :
    (base.child name).components = base.components ++ [.name name] := by
  rw [components_eq, components_eq, isAbsolute_child hbase, segments_child hbase]
  simp only [componentsFrom_append _ (componentsFrom_stem hbase true).1,
    (componentsFrom_stem hbase _).2, componentsFrom_name hname]
  cases base.isAbsolute <;> rfl

theorem components_descend {base : Path} (hbase : base.isEmpty = false) {way : List FileName}
    (hway : ∀ name ∈ way, IsEntryName name) :
    (base.descend way).components = base.components ++ way.map .name := by
  induction way generalizing base with
  | nil => exact (List.append_nil _).symm
  | cons name way ih =>
    obtain ⟨hname, hway⟩ := List.forall_mem_cons.1 hway
    rw [descend_cons, ih (isEmpty_child hbase hname.ne_empty) hway, components_child hbase hname,
      List.append_assoc]
    rfl

theorem fileName_descend {base : Path} (hbase : base.isEmpty = false) {way : List FileName}
    {name : FileName} (hway : ∀ segment ∈ way ++ [name], IsEntryName segment) :
    (base.descend (way ++ [name])).fileName = some name := by
  rw [fileName, components_descend hbase hway, List.map_append, ← List.append_assoc,
    List.map_singleton, List.getLast?_concat]

end Path

end RpcCatalog
