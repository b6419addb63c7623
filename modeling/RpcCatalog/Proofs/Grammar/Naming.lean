import RpcCatalog.Proofs.Grammar.Decomposition

/-!
# Names in parsed declarations

Whatever is accepted, the names in it are names.

* `isName_of_takes`, `isDotted_of_takes`, `isTypeName_of_takes`: what the scans for names take.
* `Declaration.IsWellNamed`: the packages, messages, services and calls that a declaration names are
  well formed.
* `isWellNamed_of_parseDeclarations`: so are those of all declarations that are parsed.
-/

set_option autoImplicit false

namespace RpcCatalog

namespace Grammar

/-! ## What scans take -/

section Takes

variable {t r : List Char}

theorem isName_of_takes (h : Takes name t r) : IsName t := by
  unfold Takes name at h
  split at h
  · cases h
  · next c s _ =>
    split at h
    · next hc =>
      cases h
      exact ⟨c, _, rfl, hc, List.all_eq_true.1 List.all_takeWhile⟩
    · cases h

/-- What follows the first part of a dotted name. -/
def IsDottedTail (tail : List Char) : Prop := tail = [] ∨ ∃ n, tail = '.' :: n ∧ IsDotted n

theorem IsName.append_tail {n tail : List Char} (h : IsName n) (htail : IsDottedTail tail) :
    IsDotted (n ++ tail) := by
  obtain rfl | ⟨m, rfl, hm⟩ := htail
  · rw [List.append_nil]
    exact .name h
  · exact .dot h hm

theorem isDottedTail_dottedTail (fuel : Nat) (s : List Char) :
    IsDottedTail (dottedTail name fuel s).1 := by
  induction fuel generalizing s with
  | zero => exact .inl rfl
  | succ fuel ih =>
    unfold dottedTail
    split
    · split
      · next s' _ p r hpart =>
        obtain ⟨-, hpart⟩ := name_splits.takes hpart
        exact .inr ⟨_, rfl, (isName_of_takes hpart).append_tail (ih r)⟩
      · exact .inl rfl
    · exact .inl rfl

theorem isDotted_of_dottedName {s : List Char} (h : dottedName s = some (t, r)) : IsDotted t := by
  unfold dottedName dotted at h
  split at h
  · next p r' hpart =>
    cases h
    obtain ⟨-, hpart⟩ := name_splits.takes hpart
    exact (isName_of_takes hpart).append_tail (isDottedTail_dottedTail _ _)
  · cases h

theorem isDotted_of_takes (h : Takes dottedName t r) : IsDotted t := isDotted_of_dottedName h

theorem isTypeName_of_takes (h : Takes typeName t r) : IsTypeName t := by
  unfold Takes typeName at h
  split at h
  · obtain ⟨⟨n, r'⟩, hname, heq⟩ := Option.map_eq_some_iff.1 h
    cases heq
    exact .absolute (isDotted_of_dottedName hname)
  · exact .relative (isDotted_of_dottedName h)

end Takes

/-! ## Parts that hold names -/

section Parts

variable {parts : List Reading} {t r : List Char}

theorem InTurn.exists_part (h : InTurn parts t r) {part : Reading} (hpart : part ∈ parts) :
    ∃ t' r', part t' r' := by
  induction parts generalizing t with
  | nil => cases hpart
  | cons first parts ih =>
    cases parts with
    | nil =>
      obtain rfl := List.mem_singleton.1 hpart
      exact ⟨t, r, h⟩
    | cons =>
      obtain ⟨t₁, w, t₂, -, -, hfirst, hrest⟩ := h
      obtain rfl | hpart := List.mem_cons.1 hpart
      · exact ⟨t₁, _, hfirst⟩
      · exact ih hrest hpart

theorem InTurn.exists_takes (h : InTurn parts t r) {scan : Scan} {text : String}
    (hpart : Reading.verbatim scan text ∈ parts) : ∃ r', Takes scan text.toList r' := by
  obtain ⟨_, r', rfl, htakes⟩ := h.exists_part hpart
  exact ⟨r', htakes⟩

theorem InTurn.isName {n : String} (h : InTurn parts t r)
    (hpart : Reading.verbatim name n ∈ parts) : IsName n.toList := by
  obtain ⟨r', htakes⟩ := h.exists_takes hpart
  exact isName_of_takes htakes

theorem InTurn.isDotted {n : String} (h : InTurn parts t r)
    (hpart : Reading.verbatim dottedName n ∈ parts) : IsDotted n.toList := by
  obtain ⟨r', htakes⟩ := h.exists_takes hpart
  exact isDotted_of_takes htakes

theorem InTurn.isTypeName {n : String} (h : InTurn parts t r)
    (hpart : Reading.verbatim typeName n ∈ parts) : IsTypeName n.toList := by
  obtain ⟨r', htakes⟩ := h.exists_takes hpart
  exact isTypeName_of_takes htakes

end Parts

end Grammar

open Grammar

/-! ## Well-named declarations -/

/-- A call has a name, and its types have names. -/
def ServiceItem.IsWellNamed : ServiceItem → Prop
  | .rpc signature => IsName signature.name.toList ∧ IsTypeName signature.requestType.toList ∧
      IsTypeName signature.responseType.toList
  | .comment _ | .other => True

/-- Packages have dotted names; messages, services and the calls in them have names. -/
def Declaration.IsWellNamed : Declaration → Prop
  | .package name => IsDotted name.toList
  | .message name => IsName name.toList
  | .service name items => IsName name.toList ∧ ∀ item ∈ items, item.IsWellNamed
  | .importing _ | .option _ _ | .comment _ | .other => True

theorem ServiceItem.ReadFrom.isWellNamed {item : ServiceItem} {t r : List Char}
    (h : item.ReadFrom t r) : item.IsWellNamed := by
  cases h with
  | @rpc signature _ _ h =>
    exact ⟨h.inTurn.isName (by simp [rpcParts, headingParts]),
      h.inTurn.isTypeName (by simp [rpcParts, callParts, parenthesizedParts]),
      h.inTurn.isTypeName (by simp [rpcParts, callParts, parenthesizedParts])⟩
  | _ => trivial

theorem Declaration.ReadFrom.isWellNamed {d : Declaration} {t r : List Char}
    (h : d.ReadFrom t r) : d.IsWellNamed := by
  cases h with
  | package h => exact h.inTurn.isDotted (by simp [packageParts])
  | message h => exact h.inTurn.isName (by simp [messageParts, headingParts])
  | service _ hhead hitems =>
    refine ⟨hhead.isName (by simp [headingParts]), fun item hitem => ?_⟩
    obtain ⟨_, _, _, -, hread⟩ := hitems.exists_of_mem hitem
    exact hread.isWellNamed
  | _ => trivial

/-- Whatever is parsed has well-formed names. -/
theorem isWellNamed_of_parseDeclarations {source : String} {ds : List Declaration}
    (h : parseDeclarations source = .ok ds) {d : Declaration} (hd : d ∈ ds) : d.IsWellNamed := by
  obtain ⟨r, hparse⟩ := exists_file_parse h
  obtain ⟨_, _, _, -, hread⟩ := (file_decomposes hparse).exists_of_mem hd
  exact hread.isWellNamed

end RpcCatalog
