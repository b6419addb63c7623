/-!
# Declarations

What a file says, as far as services depend on it: its imports, package, options, comments,
top-level messages and services. Everything else is present only as `other`.
-/

set_option autoImplicit false

namespace RpcCatalog

/-- The name and the type names of a unary call, as written. -/
structure RpcSignature where
  name : String
  requestType : String
  responseType : String
  deriving DecidableEq, Repr

/-- One entry of a service block. -/
inductive ServiceItem where
  | comment (text : String)
  | rpc (signature : RpcSignature)
  /-- A service option, a streaming call or anything else that is not modelled. -/
  | other
  deriving DecidableEq, Repr

/-- One top-level declaration of a file. Names and texts are as written; literals have lost their
quotes. -/
inductive Declaration where
  | importing (path : String)
  | package (name : String)
  | option (name value : String)
  | comment (text : String)
  | message (name : String)
  | service (name : String) (items : List ServiceItem)
  /-- A version statement or anything else that is not modelled. -/
  | other
  deriving DecidableEq, Repr

end RpcCatalog
