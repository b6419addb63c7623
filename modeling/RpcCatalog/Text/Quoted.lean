import RpcCatalog.Text.Printable

/-!
# Quoted texts

Texts in double quotes for messages: what cannot be shown is written as an escape.
-/

set_option autoImplicit false

namespace RpcCatalog.Text

/-- A character inside double quotes. Controls with a letter of their own use it, and whatever is
not printable is given by its code point in hexadecimal. -/
def quotedChar (c : Char) : List Char :=
  if c = '\x00' then ['\\', '0']
  else if c = '\t' then ['\\', 't']
  else if c = '\r' then ['\\', 'r']
  else if c = '\n' then ['\\', 'n']
  else if c = '"' || c = '\\' then ['\\', c]
  else if isPrintable c then [c]
  else ['\\', 'u', '\x7b'] ++ Nat.toDigits 16 c.toNat ++ ['\x7d']

def quoted (text : String) : String :=
  String.ofList ('"' :: text.toList.flatMap quotedChar ++ ['"'])

def quotedList (texts : List String) : String :=
  "[" ++ ", ".intercalate (texts.map quoted) ++ "]"

end RpcCatalog.Text
