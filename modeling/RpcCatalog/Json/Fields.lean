import RpcCatalog.Json.Value

/-!
# Fields of records

A record is written as an object with its fields by name, or as a list with its fields in order. In
an object, members of other names are ignored and a field may not be given twice; a list may leave
out fields at its end.
-/

set_option autoImplicit false

namespace RpcCatalog.Json

/-- The fields of a record that a value gives. -/
structure Fields where
  inOrder : Bool
  given : List (String × Value)

namespace Fields

/-- The fields that a value gives for a record with fields of the given names. -/
def of? (names : List String) (value : Value) : Option Fields :=
  match value with
  | .list items =>
    if items.length ≤ names.length then some ⟨true, names.zip items⟩ else none
  | value => do
    let given := (← value.members?).filter fun pair => names.contains pair.1
    if (given.map Prod.fst).Nodup then some ⟨false, given⟩ else none

def required {α : Type} (fields : Fields) (name : String) (read : Value → Option α) : Option α :=
  (fields.given.lookup name).bind read

/-- A field that may be null, or left out of an object. -/
def nullable {α : Type} (fields : Fields) (name : String) (read : Value → Option α) :
    Option (Option α) :=
  match fields.given.lookup name with
  | none => if fields.inOrder then none else some none
  | some .null => some none
  | some value => (read value).map some

def withDefault {α : Type} (fields : Fields) (name : String) (read : Value → Option α)
    (default : α) : Option α :=
  match fields.given.lookup name with
  | none => some default
  | some value => read value

end Fields

end RpcCatalog.Json
