/-!
# Services

Service descriptors, over any kind of type: first types as they are written, then their places in
the output language. `Service.mapTypesM` converts the types and keeps all else.
-/

set_option autoImplicit false

namespace RpcCatalog

universe u v

/-- One call of a service. -/
structure Method (τ : Type u) where
  name : String
  /-- The request types; a unary call has one. -/
  requestTypes : List τ
  responseType : τ
  comments : List String := []
  deriving DecidableEq, Repr

/-- A service with its calls. -/
structure Service (τ : Type u) where
  name : String
  protoPackage : Option String
  /-- The output package in force where the service was declared. -/
  outputPackage : String
  methods : List (Method τ)
  comments : List String := []
  /-- Left empty by extraction, for a generator to fill. -/
  annotations : List String := []
  deriving DecidableEq, Repr

variable {m : Type u → Type v} [Monad m] {α β : Type u}

/-- The method with its types converted: the request types in order, then the response type. -/
def Method.mapTypesM (convert : α → m β) (method : Method α) : m (Method β) := do
  let requestTypes ← method.requestTypes.mapM convert
  let responseType ← convert method.responseType
  return { method with requestTypes, responseType }

/-- The service with the types of its methods converted, method by method. -/
def Service.mapTypesM (convert : α → m β) (service : Service α) : m (Service β) := do
  let methods ← service.methods.mapM (Method.mapTypesM convert)
  return { service with methods }

end RpcCatalog
