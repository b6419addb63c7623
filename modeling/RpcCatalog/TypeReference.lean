import RpcCatalog.Text.Split

/-!
# Type references

A type as a call names it, and the place in the output language that it is resolved to.

* `TypeReference.ofDotted`: a dotted name, split at its last dot.
* `TypeReference.qualify`: a reference as seen from a package.
* `ResolvedType.qualifiedName`: the full output name.
-/

set_option autoImplicit false

namespace RpcCatalog

/-- A type as mentioned in a call, before it is resolved. -/
structure TypeReference where
  name : String
  /-- The package that the message is looked up in, if one is known. -/
  package : Option String
  deriving DecidableEq, Repr, Inhabited

namespace TypeReference

/-- A dotted name, split at its last dot. One dot in front only marks an absolute name, and a name
without a package in front of its last dot has none. -/
def ofDotted (text : String) : TypeReference :=
  let chars := Text.dropLeading '.' text.toList
  match Text.splitLast '.' chars with
  | some (package@(_ :: _), name) => ⟨String.ofList name, some (String.ofList package)⟩
  | _ => ⟨String.ofList chars, none⟩

def render (reference : TypeReference) : String :=
  match reference.package with
  | some package => package ++ "." ++ reference.name
  | none => reference.name

/-- A type name as seen from a package: a dotted name says its package itself, a bare one lives in
the package it is used in. -/
def qualify (text : String) (package : Option String) : TypeReference :=
  let reference := ofDotted text
  match reference.package with
  | some _ => reference
  | none => ⟨reference.name, package⟩

end TypeReference

/-- A type's place in the output language. -/
structure ResolvedType where
  name : String
  /-- The output package, with the enclosing classes joined in. -/
  package : String
  /-- The names of the enclosing classes, the outermost first. -/
  enclosingClasses : List String := []
  deriving DecidableEq, Repr, Inhabited

/-- The full output name; the default package has no name of its own. -/
def ResolvedType.qualifiedName (type : ResolvedType) : String :=
  if type.package = "" then type.name else type.package ++ "." ++ type.name

end RpcCatalog
