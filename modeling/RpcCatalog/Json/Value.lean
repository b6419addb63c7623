import RpcCatalog.Json.Token

/-!
# JSON values

* `Value`: the tree of a JSON text. Strings and numbers keep their written form, so that a string
  that names no Unicode text can still be skipped.
* `Value.ofText?`: the value that a text holds.
* `Value.compact`, `Value.pretty`: the two ways to write a value.
-/

set_option autoImplicit false

namespace RpcCatalog.Json

/-- The tree of a JSON text. -/
inductive Value where
  | null
  | bool (value : Bool)
  | number (written : List Char)
  | string (written : List Char)
  | list (items : List Value)
  /-- An object; its names are in written form, and may repeat. -/
  | object (members : List (List Char × Value))
  deriving Inhabited

namespace Value

def ofString (text : String) : Value := .string (escape text.toList)

def ofNat (n : Nat) : Value := .number (Nat.toDigits 10 n)

def record (members : List (String × Value)) : Value :=
  .object (members.map fun (name, value) => (escape name.toList, value))

/-! ## Reading -/

mutual

def read : Nat → List Token → Option (Value × List Token)
  | 0, _ => none
  | _ + 1, .null :: rest => some (.null, rest)
  | _ + 1, .bool b :: rest => some (.bool b, rest)
  | _ + 1, .number written :: rest => some (.number written, rest)
  | _ + 1, .string written :: rest => some (.string written, rest)
  | _ + 1, .openList :: .closeList :: rest => some (.list [], rest)
  | fuel + 1, .openList :: rest =>
    (readItems fuel rest).map fun (items, rest) => (.list items, rest)
  | _ + 1, .openObject :: .closeObject :: rest => some (.object [], rest)
  | fuel + 1, .openObject :: rest =>
    (readMembers fuel rest).map fun (members, rest) => (.object members, rest)
  | _ + 1, _ => none

/-- The items of a list through its end; there is at least one. -/
def readItems : Nat → List Token → Option (List Value × List Token)
  | 0, _ => none
  | fuel + 1, tokens =>
    match read fuel tokens with
    | some (item, .comma :: rest) =>
      (readItems fuel rest).map fun (items, rest) => (item :: items, rest)
    | some (item, .closeList :: rest) => some ([item], rest)
    | _ => none

/-- The members of an object through its end; there is at least one. -/
def readMembers : Nat → List Token → Option (List (List Char × Value) × List Token)
  | 0, _ => none
  | fuel + 1, tokens =>
    match tokens with
    | .string name :: .colon :: rest =>
      match read fuel rest with
      | some (value, .comma :: rest) =>
        (readMembers fuel rest).map fun (members, rest) => ((name, value) :: members, rest)
      | some (value, .closeObject :: rest) => some ([(name, value)], rest)
      | _ => none
    | _ => none

end

/-- The value that a text holds, if it holds one and nothing else. Every token is read at two levels
at most. -/
def ofText? (text : String) : Option Value :=
  match tokens? text.toList with
  | none => none
  | some tokens =>
    match read (2 * tokens.length + 2) tokens with
    | some (value, []) => some value
    | _ => none

/-! ## Writing -/

mutual

def compact : Value → List Char
  | null => "null".toList
  | bool true => "true".toList
  | bool false => "false".toList
  | number written => written
  | string written => '"' :: written ++ ['"']
  | list [] => ['[', ']']
  | list (item :: items) => '[' :: compact item ++ compactItems items ++ [']']
  | object [] => ['\x7b', '\x7d']
  | object ((name, value) :: members) =>
    '\x7b' :: '"' :: name ++ ['"', ':'] ++ compact value ++ compactMembers members ++ ['\x7d']

def compactItems : List Value → List Char
  | [] => []
  | item :: items => ',' :: compact item ++ compactItems items

def compactMembers : List (List Char × Value) → List Char
  | [] => []
  | (name, value) :: members =>
    ',' :: '"' :: name ++ ['"', ':'] ++ compact value ++ compactMembers members

end

/-- A new line at a depth of nesting, two spaces for each level. -/
def newLine (depth : Nat) : List Char := '\n' :: List.replicate (2 * depth) ' '

mutual

/-- A value with each item and member on a line of its own. -/
def pretty (depth : Nat) : Value → List Char
  | null => "null".toList
  | bool true => "true".toList
  | bool false => "false".toList
  | number written => written
  | string written => '"' :: written ++ ['"']
  | list [] => ['[', ']']
  | list (item :: items) =>
    '[' :: newLine (depth + 1) ++ pretty (depth + 1) item ++ prettyItems (depth + 1) items
      ++ newLine depth ++ [']']
  | object [] => ['\x7b', '\x7d']
  | object ((name, value) :: members) =>
    '\x7b' :: newLine (depth + 1) ++ '"' :: name ++ ['"', ':', ' '] ++ pretty (depth + 1) value
      ++ prettyMembers (depth + 1) members ++ newLine depth ++ ['\x7d']

def prettyItems (depth : Nat) : List Value → List Char
  | [] => []
  | item :: items => ',' :: newLine depth ++ pretty depth item ++ prettyItems depth items

def prettyMembers (depth : Nat) : List (List Char × Value) → List Char
  | [] => []
  | (name, value) :: members =>
    ',' :: newLine depth ++ '"' :: name ++ ['"', ':', ' '] ++ pretty depth value
      ++ prettyMembers depth members

end

def render (value : Value) : String := String.ofList value.compact

def renderPretty (value : Value) : String := String.ofList (value.pretty 0)

/-! ## Reading parts -/

def text? : Value → Option String
  | string written => (unescape? written).map String.ofList
  | _ => none

def bool? : Value → Option Bool
  | bool b => some b
  | _ => none

def items? : Value → Option (List Value)
  | list items => some items
  | _ => none

def digits? (digits : List Char) : Option Nat :=
  if !digits.isEmpty && digits.all Char.isDigit then
    some (digits.foldl (fun n c => n * 10 + (c.toNat - '0'.toNat)) 0)
  else none

def uint32? : Value → Option UInt32
  | number written => do
    let n ← digits? written
    if n < UInt32.size then some n.toUInt32 else none
  | _ => none

def listOf? {α : Type} (read : Value → Option α) (value : Value) : Option (List α) :=
  value.items?.bind (·.mapM read)

/-- The members of an object, with the texts of their names. -/
def members? : Value → Option (List (String × Value))
  | object members =>
    members.mapM fun (name, value) => (unescape? name).map fun name => (String.ofList name, value)
  | _ => none

end Value

end RpcCatalog.Json
