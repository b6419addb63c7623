import RpcCatalog.Descriptor

/-!
# Summaries

How results are written: services as lines for readers or as JSON, and files as a list.
-/

set_option autoImplicit false

namespace RpcCatalog.CommandLine

def unlines (lines : List String) : String := String.join (lines.map (· ++ "\n"))

def methodSummary (method : Method ResolvedType) : String :=
  method.name ++ "(" ++ ", ".intercalate (method.requestTypes.map ResolvedType.qualifiedName)
    ++ ") → " ++ method.responseType.qualifiedName

/-- Lines of comments at an indent, if they are wanted. -/
def commentLines (verbose : Bool) (indent : String) (comments : List String) : List String :=
  if verbose then comments.map fun line => indent ++ "// " ++ line else []

def methodLines (verbose : Bool) (method : Method ResolvedType) : List String :=
  ("  • " ++ methodSummary method) :: commentLines verbose "      " method.comments

def serviceLines (verbose : Bool) (service : Service ResolvedType) : List String :=
  "" :: (service.name ++ " (" ++ service.outputPackage ++ ")")
    :: commentLines verbose "  " service.comments
    ++ service.methods.flatMap (methodLines verbose)

def servicesText (verbose : Bool) (services : List (Service ResolvedType)) : String :=
  unlines
    ("" :: "✓ Parse successful!" :: ("  Services: " ++ toString services.length)
      :: services.flatMap (serviceLines verbose))

def servicesJson (services : List (Service ResolvedType)) : Json.Value :=
  .list (services.map (Service.toJson ResolvedType.toJson))

def filesText (found : List Path) : String :=
  unlines
    (found.map (fun path => "  " ++ path.display) ++
      ["✓ Discovered " ++ toString found.length ++ " proto files"])

end RpcCatalog.CommandLine
