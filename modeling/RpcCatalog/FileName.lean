import RpcCatalog.Text.Lossy

/-!
# File names

Names as the system keeps them: any bytes, which are most often a text in UTF-8.

* `FileName.text?`: the text that a name is, if it is one.
* `FileName.bytes`: the bytes of a name; names are in the order of their bytes.
* `FileName.display`: a name as it is shown.
-/

set_option autoImplicit false

namespace RpcCatalog

/-- Bytes that are no text in UTF-8. -/
structure StrayBytes where
  bytes : List UInt8
  no_text : String.fromUTF8? ⟨bytes.toArray⟩ = none
  deriving DecidableEq, Repr

/-- A name, or what is between the slashes of a path. -/
inductive FileName where
  | text (text : String)
  | stray (bytes : StrayBytes)
  deriving DecidableEq, Repr

namespace FileName

instance : Coe String FileName := ⟨text⟩

def text? : FileName → Option String
  | text s => some s
  | stray _ => none

def bytes : FileName → List UInt8
  | text s => s.toUTF8.data.toList
  | stray b => b.bytes

def size : FileName → Nat
  | text s => s.utf8ByteSize
  | stray b => b.bytes.length

/-- The name has an ASCII character in it. -/
def contains (c : Char) : FileName → Bool
  | text s => c ∈ s.toList
  | stray b => c.toUInt8 ∈ b.bytes

instance : LT FileName := ⟨fun a b => a.bytes < b.bytes⟩

instance (a b : FileName) : Decidable (a < b) := inferInstanceAs (Decidable (a.bytes < b.bytes))

/-- The name as a text; what is none in it is replaced. -/
def display : FileName → String
  | text s => s
  | stray b => Text.shown b.bytes

end FileName

end RpcCatalog
