/-!
# Bytes shown as texts

Bytes that are meant as UTF-8 and may be none. Each run of bytes that begins no character, or that
begins one and breaks off, is shown as one replacement character.
-/

set_option autoImplicit false

namespace RpcCatalog.Text

def replacement : Char := '\uFFFD'

/-- A character whose first bytes were read. -/
structure Begun where
  bits : Nat
  /-- How many bytes are still to come, and what the next one may be. -/
  missing : Nat
  low : UInt8 := 0x80
  high : UInt8 := 0xBF

/-- What a byte at the start of a character is shown as, and the character that it begins. -/
def lead (byte : UInt8) : List Char × Option Begun :=
  if byte ≤ 0x7F then ([Char.ofNat byte.toNat], none)
  else if 0xC2 ≤ byte ∧ byte ≤ 0xDF then ([], some { bits := byte.toNat % 32, missing := 1 })
  else if byte = 0xE0 then ([], some { bits := 0, missing := 2, low := 0xA0 })
  else if byte = 0xED then ([], some { bits := 13, missing := 2, high := 0x9F })
  else if 0xE1 ≤ byte ∧ byte ≤ 0xEF then ([], some { bits := byte.toNat % 16, missing := 2 })
  else if byte = 0xF0 then ([], some { bits := 0, missing := 3, low := 0x90 })
  else if byte = 0xF4 then ([], some { bits := 4, missing := 3, high := 0x8F })
  else if 0xF1 ≤ byte ∧ byte ≤ 0xF3 then ([], some { bits := byte.toNat % 8, missing := 3 })
  else ([replacement], none)

/-- What a byte is shown as behind the first bytes of a character, if there are any. -/
def follow (begun? : Option Begun) (byte : UInt8) : List Char × Option Begun :=
  match begun? with
  | none => lead byte
  | some begun =>
    if begun.low ≤ byte ∧ byte ≤ begun.high then
      let bits := begun.bits * 64 + byte.toNat % 64
      if begun.missing = 1 then ([Char.ofNat bits], none)
      else ([], some { bits, missing := begun.missing - 1 })
    else
      let (shown, begun?) := lead byte
      (replacement :: shown, begun?)

/-- The characters that bytes are shown as. -/
def shownFrom (begun? : Option Begun) : List UInt8 → List Char
  | [] => begun?.toList.map fun _ => replacement
  | byte :: rest =>
    let (shown, begun?) := follow begun? byte
    shown ++ shownFrom begun? rest

def shown (bytes : List UInt8) : String := String.ofList (shownFrom none bytes)

-- A byte that begins no character, a whole character, and one that breaks off.
example : shown [0xFF, 0x61, 0xC3, 0xA4, 0xE2, 0x82] = "\uFFFDaä\uFFFD" := by decide

end RpcCatalog.Text
