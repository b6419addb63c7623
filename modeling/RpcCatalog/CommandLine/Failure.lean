import RpcCatalog.Error

/-!
# Failures

How a failed run is reported: what was being done, and below it each cause. A single cause is
indented; several are numbered from zero. Every line of a cause stands under its first.
-/

set_option autoImplicit false

namespace RpcCatalog.CommandLine

/-- What was being done when a run failed, and the causes, each below the one it caused. -/
structure Failure where
  context : String
  causes : List String
  deriving DecidableEq, Repr

/-- What was being done, and the error that ended it. -/
def Failure.of (context : String) (error : CatalogError) : Failure := ⟨context, error.chain⟩

def hanging (indent text : String) : String :=
  String.ofList (text.toList.flatMap fun c => if c = '\n' then '\n' :: indent.toList else [c])

def numberColumn (n : Nat) : String :=
  let digits := toString n
  String.ofList (List.replicate (5 - digits.length) ' ') ++ digits

/-- Several causes, one after another, with their numbers. -/
def numberedCauses (n : Nat) : List String → String
  | [] => ""
  | cause :: causes =>
    "\n" ++ numberColumn n ++ ": " ++ hanging "       " cause ++ numberedCauses (n + 1) causes

def Failure.render (failure : Failure) : String :=
  "Error: " ++ failure.context ++
    (match failure.causes with
      | [] => ""
      | [cause] => "\n\nCaused by:\n    " ++ hanging "    " cause
      | causes => "\n\nCaused by:" ++ numberedCauses 0 causes) ++ "\n"

end RpcCatalog.CommandLine
