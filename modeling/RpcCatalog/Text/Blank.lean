/-!
# White space

The Unicode property `White_Space`, and texts without white space at their ends.
-/

set_option autoImplicit false

namespace RpcCatalog.Text

/-- The Unicode property `White_Space`. -/
def isWhiteSpace (c : Char) : Bool :=
  ('\t' ≤ c && c ≤ '\r') || c = ' ' || c = '\u0085' || c = '\u00A0' || c = '\u1680'
    || ('\u2000' ≤ c && c ≤ '\u200A') || c = '\u2028' || c = '\u2029' || c = '\u202F'
    || c = '\u205F' || c = '\u3000'

def trimStart (s : List Char) : List Char := s.dropWhile isWhiteSpace

def trimEnd (s : List Char) : List Char := (s.reverse.dropWhile isWhiteSpace).reverse

def trim (s : List Char) : List Char := trimEnd (trimStart s)

end RpcCatalog.Text
