import Mathlib.Tactic.SplitIfs
import RpcCatalog.Json.Escape

/-!
# Escapes

A text is read back from its written form, and the written form is taken as a whole from the front
of what follows its opening quote.

* `Json.IsEscapeOf`: what may be written for a character.
* `Json.unescape?_escape`: a written form names its text.
* `Json.splitString?_escape`: a written form ends at its closing quote and not before.
-/

set_option autoImplicit false

namespace RpcCatalog.Json

/-! ## Written characters -/

/-- What is written for a character: a letter or the digits of a control behind a backslash, or the
character itself. -/
inductive IsEscapeOf (c : Char) : List Char → Prop
  | letter {letter : Char} (hletter : letter ≠ 'u') (h : letterEscape? letter = some c) :
    IsEscapeOf c ['\\', letter]
  | control (h : c.toNat < 32) :
    IsEscapeOf c ['\\', 'u', '0', '0', hexDigit (c.toNat / 16), hexDigit (c.toNat % 16)]
  | plain (hquote : c ≠ '"') (hbackslash : c ≠ '\\') (h : ¬ c < ' ') : IsEscapeOf c [c]

theorem escapeChar_isEscapeOf (c : Char) : IsEscapeOf c (escapeChar c) := by
  unfold escapeChar
  split_ifs with hquote hbackslash hback hfeed hline hreturn htab hcontrol
  · exact .letter (by decide) (by rw [hquote]; rfl)
  · exact .letter (by decide) (by rw [hbackslash]; rfl)
  · exact .letter (by decide) (by rw [hback]; rfl)
  · exact .letter (by decide) (by rw [hfeed]; rfl)
  · exact .letter (by decide) (by rw [hline]; rfl)
  · exact .letter (by decide) (by rw [hreturn]; rfl)
  · exact .letter (by decide) (by rw [htab]; rfl)
  · exact .control hcontrol
  · exact .plain hquote hbackslash hcontrol

theorem hexUnit?_control :
    ∀ n < 32, hexUnit? '0' '0' (hexDigit (n / 16)) (hexDigit (n % 16)) = some n := by
  decide

/-! ## Reading -/

section Reading

variable {c : Char} {written : List Char}

theorem IsEscapeOf.unescape?_append (h : IsEscapeOf c written) (rest : List Char) :
    unescape? (written ++ rest) = (unescape? rest).map (c :: ·) := by
  cases h with
  | @letter letter hletter h =>
    rw [List.cons_append, List.cons_append, List.nil_append, unescape?, h]
    exact fun _ _ _ _ _ heq _ => hletter heq
  | control h =>
    have hleading : isLeading c.toNat = false := by
      simp only [isLeading, Bool.and_eq_false_iff, decide_eq_false_iff_not]
      omega
    have htrailing : isTrailing c.toNat = false := by
      simp only [isTrailing, Bool.and_eq_false_iff, decide_eq_false_iff_not]
      omega
    simp only [List.cons_append, List.nil_append]
    rw [unescape?, hexUnit?_control _ h]
    dsimp only
    rw [hleading, htrailing, Char.ofNat_toNat]
    rfl
  | plain hquote hbackslash h =>
    rw [List.singleton_append, unescape?, if_neg hbackslash]
    · exact fun _ _ _ _ _ heq _ => hbackslash heq
    · exact fun _ _ heq _ => hbackslash heq

theorem IsEscapeOf.splitString?_append (h : IsEscapeOf c written) (rest : List Char) :
    splitString? (written ++ rest) =
      (splitString? rest).map fun (t, r) => (written ++ t, r) := by
  cases h with
  | @letter letter hletter h =>
    rw [List.cons_append, List.cons_append, List.nil_append, splitString?, h]
    · rfl
    · exact fun _ _ _ _ _ heq _ => hletter heq
  | control h =>
    simp only [List.cons_append, List.nil_append]
    rw [splitString?, hexUnit?_control _ h]
  | plain hquote hbackslash h =>
    have hplain : (decide (c < ' ') || decide (c = '\\')) = false := by
      rw [decide_eq_false h, decide_eq_false hbackslash]
      rfl
    rw [List.singleton_append, splitString?, hplain]
    · rfl
    · exact hquote
    · exact fun _ _ _ _ _ heq _ => hbackslash heq
    · exact fun _ _ heq _ => hbackslash heq

end Reading

theorem unescape?_escape (text : List Char) : unescape? (escape text) = some text := by
  induction text with
  | nil => rfl
  | cons c text ih =>
    have hcons : escape (c :: text) = escapeChar c ++ escape text := List.flatMap_cons
    rw [hcons, (escapeChar_isEscapeOf c).unescape?_append, ih, Option.map_some]

theorem splitString?_escape (text rest : List Char) :
    splitString? (escape text ++ '"' :: rest) = some (escape text, rest) := by
  induction text with
  | nil => rfl
  | cons c text ih =>
    have hcons : escape (c :: text) = escapeChar c ++ escape text := List.flatMap_cons
    rw [hcons, List.append_assoc, (escapeChar_isEscapeOf c).splitString?_append, ih,
      Option.map_some]

end RpcCatalog.Json
