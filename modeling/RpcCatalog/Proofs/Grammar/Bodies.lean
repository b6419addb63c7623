import RpcCatalog.Proofs.Grammar.CatchAll
import RpcCatalog.Proofs.Grammar.RoundTrip

/-!
# Bodies of messages

The body of a message ends at the brace that closes it and nowhere else. What stands in it, and what
comes after it, makes no difference.

* `IsBody`: a block in braces. `IsInner` is what stands in the braces: blocks, literals, comments
  and other characters.
* `IsInner.balanced`: the text in the braces leaves the block around it open.
* `IsBody.takes`: so a body is taken off the front of whatever follows it.
* `parseDeclarations_message_iff`: a message with a body in front of a text is one declaration more.
-/

set_option autoImplicit false

namespace RpcCatalog

namespace Grammar

/-! ## Bodies -/

/-- A character that means nothing in a body. -/
def isInnerChar (c : Char) : Bool :=
  !(c = '{' || c = '}' || c = '"' || c = '\'' || c = '/')

/-- A text that stands in the braces of a body. A line comment has its line end. -/
inductive IsInner : List Char → Prop where
  | nil : IsInner []
  | body {t s : List Char} (h : IsInner t) (rest : IsInner s) : IsInner ('{' :: (t ++ '}' :: s))
  | literal {quote : Char} {text s : List Char} (hquote : quote = '"' ∨ quote = '\'')
    (h : IsQuotable quote text) (rest : IsInner s) : IsInner (quote :: (text ++ quote :: s))
  | line {text s : List Char} (h : ∀ c ∈ text, isLineEnd c = false) (rest : IsInner s) :
    IsInner ('/' :: '/' :: (text ++ '\n' :: s))
  | block {text s : List Char} (h : ¬ ['*', '/'] <:+: text) (rest : IsInner s) :
    IsInner ('/' :: '*' :: (text ++ '*' :: '/' :: s))
  | char {c : Char} {s : List Char} (h : isInnerChar c) (rest : IsInner s) : IsInner (c :: s)

/-- A block in braces with such a text in it. -/
inductive IsBody : List Char → Prop where
  | intro {t : List Char} (h : IsInner t) : IsBody ('{' :: (t ++ ['}']))

/-! ## What is taken -/

section Takes

variable {t r : List Char}

theorem balanced_of_isInnerChar {c : Char} (h : isInnerChar c) (r : List Char) :
    Balanced [c] r := by
  simp only [isInnerChar, Bool.not_eq_eq_eq_not, Bool.not_true, Bool.or_eq_false_iff] at h
  by_cases hsemicolon : c = ';'
  · exact hsemicolon ▸ balanced_semicolon r
  · have hloose : isLooseChar c := by simp [isLooseChar, h, hsemicolon]
    exact (chunks_of_loose (fun d hd => List.mem_singleton.1 hd ▸ hloose) r).balanced

/-- The induction is on the text; each piece of it is balanced in front of whatever follows. -/
theorem IsInner.balanced (h : IsInner t) (r : List Char) : Balanced t r := by
  induction h generalizing r with
  | nil => exact .nil r
  | @body t s _ _ ih ihrest =>
    have hbody := balanced_of_body (ih ('}' :: (s ++ r))).takes_body
    simpa using hbody.append (ihrest r)
  | @literal quote text s hquote htext _ ih =>
    have hliteral : Takes quotedText (quote :: (text ++ [quote])) (s ++ r) := by
      simpa [Takes] using htext.quotedText_append hquote (s ++ r)
    simpa using (chunks_of_quotedText hliteral).balanced.append (ih r)
  | @line text s htext _ ih =>
    have hcomment : Takes lineComment ('/' :: '/' :: text) ('\n' :: (s ++ r)) :=
      lineComment_append htext fun c hc => by cases hc; rfl
    have hend : Balanced ('\n' :: s) r := (balanced_of_isInnerChar rfl (s ++ r)).append (ih r)
    simpa using (chunks_of_lineComment hcomment).balanced.append hend
  | @block text s htext _ ih =>
    have hcomment : Takes blockComment ('/' :: '*' :: (text ++ ['*', '/'])) (s ++ r) := by
      simpa [Takes] using blockComment_append htext (s ++ r)
    simpa using (chunks_of_blockComment hcomment).balanced.append (ih r)
  | @char c s hc _ ih => exact (balanced_of_isInnerChar hc (s ++ r)).append (ih r)

/-- A body is taken off the front, whatever follows it. -/
theorem IsBody.takes (h : IsBody t) (r : List Char) : Takes body t r := by
  cases h with
  | intro h => exact (h.balanced ('}' :: r)).takes_body

end Takes

/-! ## Declarations in front of a text -/

theorem parseDeclarations_eq_ok_iff {s : List Char} {ds : List Declaration} :
    parseDeclarations (String.ofList s) = .ok ds ↔
      declaration.Exhausts s ∧ (collect declaration.parse s).1.filterMap id = ds := by
  rw [← Phrase.parse_whole_iff fun as : List (Option Declaration) => as.filterMap id]
  change _ ↔ ∃ r, file.parse s = some (ds, r)
  rw [parseDeclarations, String.toList_ofList]
  cases file.parse s with
  | none => simp
  | some split =>
    obtain ⟨ds', r⟩ := split
    simp

/-- What is parsed behind a declaration is what is parsed without it. -/
theorem parseDeclarations_cons_iff {s r : List Char} {d : Declaration} {ds : List Declaration}
    (hfront : skipBlanks s = s) (h : declaration.Reads s (some d) (skipBlanks r)) :
    parseDeclarations (String.ofList s) = .ok ds ↔
      ∃ rest, parseDeclarations (String.ofList r) = .ok rest ∧ ds = d :: rest := by
  obtain ⟨r', hparse, -, hr⟩ := h
  rw [← hfront] at hparse
  obtain ⟨hvalues, -⟩ := declaration_advances.collect_congr hr
  simp only [parseDeclarations_eq_ok_iff]
  rw [declaration_advances.exhausts_iff hparse, declaration_advances.exhausts_congr hr,
    declaration_advances.collect_eq hparse, hvalues]
  constructor
  · rintro ⟨hexhausts, rfl⟩
    exact ⟨_, ⟨hexhausts, rfl⟩, rfl⟩
  · rintro ⟨_, ⟨hexhausts, rfl⟩, rfl⟩
    exact ⟨hexhausts, rfl⟩

end Grammar

open Grammar

/-- A text with a message in front of it is parsed exactly if the text is, and what is parsed is one
message more. The body of the message ends where it does by its braces, whatever its literals and
comments say, and nothing of the text is drawn into it. -/
theorem parseDeclarations_message_iff {name text : String} {g₁ g₂ b w : List Char}
    (h₁ : IsGap g₁) (hne : g₁ ≠ []) (h₂ : IsGap g₂) (hname : IsName name.toList) (hbody : IsBody b)
    (hw : ∀ c ∈ w, isBlank c) {ds : List Declaration} :
    parseDeclarations (String.ofList
        ("message".toList ++ (g₁ ++ (name.toList ++ (g₂ ++ (b ++ (w ++ text.toList))))))) = .ok ds ↔
      ∃ rest, parseDeclarations text = .ok rest ∧ ds = .message name :: rest := by
  have htakes := hbody.takes (w ++ text.toList)
  obtain ⟨inner, rfl, -⟩ := body_eq_cons htakes
  have hmessage := messageDeclaration_reads h₁ hne h₂ hname htakes
  rw [List.append_assoc, skipBlanks_append hw] at hmessage
  have hread := declaration_reads_of_message hmessage
  rw [parseDeclarations_cons_iff rfl hread, String.ofList_toList]

/-- A body with braces in its literals and comments, and a service right behind it. -/
theorem parseDeclarations_misleading_body :
    parseDeclarations
        "message M \x7b\"\x7d\\\"\"\x7b//\x7d\n\x7d/*\x7d*/'\x7b';\x7dservice S \x7b\x7d" =
      .ok [.message "M", .service "S" []] := by
  have hname : IsName "M".toList := ⟨'M', [], rfl, rfl, by simp⟩
  have hdouble : IsQuotable '"' ['}', '\\', '"'] :=
    .char (by decide) (by decide) rfl (.escape .nil)
  have hsingle : IsQuotable '\'' ['{'] := .char (by decide) (by decide) rfl .nil
  have hline : IsInner ('/' :: '/' :: (['}'] ++ '\n' :: [])) := .line (by simp [isLineEnd]) .nil
  have hquoted : IsInner ('\'' :: (['{'] ++ '\'' :: [';'])) :=
    .literal (.inr rfl) hsingle (.char rfl .nil)
  have hblock : IsInner ('/' :: '*' :: (['}'] ++ '*' :: '/' :: _)) := .block (by decide) hquoted
  have hbody := IsBody.intro (.literal (.inl rfl) hdouble (.body hline hblock))
  have hrest : parseDeclarations "service S \x7b\x7d" = .ok [.service "S" []] := by cbv
  have hiff := @parseDeclarations_message_iff "M" "service S \x7b\x7d" [' '] [' '] _ [] isGap_blank
    (by simp) isGap_blank hname hbody (by simp) [.message "M", .service "S" []]
  exact hiff.2 ⟨_, hrest, rfl⟩

end RpcCatalog
