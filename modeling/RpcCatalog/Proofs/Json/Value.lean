import RpcCatalog.Proofs.Json.Token

/-!
# Reading written values

A value that is made of texts, numbers and named fields is read back from either form it is written
in.

* `Json.Value.IsWritten`: the values that are made so.
* `Json.Value.tokens`: the tokens of a value, the same in both forms.
* `Json.Value.IsWritten.ofText?_render`, `Json.Value.IsWritten.ofText?_renderPretty`: reading
  undoes writing.
-/

set_option autoImplicit false

namespace RpcCatalog.Json.Value

/-- The value is made of texts, numbers and named fields. -/
inductive IsWritten : Value → Prop
  | null : IsWritten null
  | bool (b : Bool) : IsWritten (bool b)
  | ofNat (n : Nat) : IsWritten (ofNat n)
  | ofString (text : String) : IsWritten (ofString text)
  | list {items : List Value} (h : ∀ item ∈ items, IsWritten item) : IsWritten (list items)
  | record {members : List (String × Value)} (h : ∀ member ∈ members, IsWritten member.2) :
    IsWritten (record members)

mutual

/-- The tokens that a value is written with. -/
def tokens : Value → List Token
  | null => [.null]
  | bool b => [.bool b]
  | number written => [.number written]
  | string written => [.string written]
  | list [] => [.openList, .closeList]
  | list (item :: items) => .openList :: (tokens item ++ (itemTokens items ++ [.closeList]))
  | object [] => [.openObject, .closeObject]
  | object ((name, value) :: members) =>
    .openObject :: (.string name :: .colon :: tokens value
      ++ (memberTokens members ++ [.closeObject]))

def itemTokens : List Value → List Token
  | [] => []
  | item :: items => .comma :: tokens item ++ itemTokens items

def memberTokens : List (List Char × Value) → List Token
  | [] => []
  | (name, value) :: members =>
    .comma :: (.string name :: .colon :: tokens value) ++ memberTokens members

end

theorem itemTokens_eq (items : List Value) :
    itemTokens items = items.flatMap fun item => .comma :: item.tokens := by
  induction items with
  | nil => rfl
  | cons item items ih => rw [itemTokens, ih, List.flatMap_cons]

theorem memberTokens_eq (members : List (List Char × Value)) :
    memberTokens members =
      members.flatMap fun member => .comma :: (.string member.1 :: .colon :: member.2.tokens) := by
  induction members with
  | nil => rfl
  | cons member members ih => rw [memberTokens, ih, List.flatMap_cons]

/-! ## Writing -/

section Writing

theorem compactItems_eq (items : List Value) :
    compactItems items = items.flatMap fun item => ',' :: [] ++ item.compact := by
  induction items with
  | nil => rfl
  | cons item items ih => rw [compactItems, ih, List.flatMap_cons]; rfl

theorem compactMembers_eq (members : List (List Char × Value)) :
    compactMembers members = members.flatMap fun member =>
      ',' :: [] ++ ('"' :: member.1 ++ ['"'] ++ ':' :: ([] ++ member.2.compact)) := by
  induction members with
  | nil => rfl
  | cons member members ih =>
    rw [compactMembers, ih, List.flatMap_cons]
    simp

theorem prettyItems_eq (depth : Nat) (items : List Value) :
    prettyItems depth items =
      items.flatMap fun item => ',' :: newLine depth ++ item.pretty depth := by
  induction items with
  | nil => rfl
  | cons item items ih => rw [prettyItems, ih, List.flatMap_cons]

theorem prettyMembers_eq (depth : Nat) (members : List (List Char × Value)) :
    prettyMembers depth members = members.flatMap fun member =>
      ',' :: newLine depth
        ++ ('"' :: member.1 ++ ['"'] ++ ':' :: ([' '] ++ member.2.pretty depth)) := by
  induction members with
  | nil => rfl
  | cons member members ih =>
    rw [prettyMembers, ih, List.flatMap_cons]
    simp

theorem isSpace_newLine (depth : Nat) : ∀ c ∈ newLine depth, isSpace c := by
  intro c hc
  obtain rfl | hc := List.mem_cons.1 hc
  · rfl
  · rw [List.eq_of_mem_replicate hc]
    rfl

theorem scans_members {write : Value → List Char} {gap : List Char} (hgap : ∀ c ∈ gap, isSpace c)
    {members : List (String × Value)}
    (h : ∀ member ∈ members, Scans (write member.2) member.2.tokens) :
    ∀ member ∈ members.map fun (name, value) => (escape name.toList, value),
      Scans ('"' :: member.1 ++ ['"'] ++ ':' :: (gap ++ write member.2))
        (.string member.1 :: .colon :: member.2.tokens) := by
  intro member hmem
  obtain ⟨⟨name, value⟩, hin, rfl⟩ := List.mem_map.1 hmem
  exact .member hgap name.toList (h (name, value) hin)

variable {value : Value}

theorem IsWritten.scans_compact (h : value.IsWritten) : Scans value.compact value.tokens := by
  have hgap := List.forall_mem_nil (isSpace · = true)
  induction h with
  | null => exact .of_splitToken? rfl fun _ _ => rfl
  | bool b => cases b <;> exact .of_splitToken? rfl fun _ _ => rfl
  | ofNat n => exact scans_number n
  | ofString text => exact scans_string text.toList
  | @list items h ih =>
    cases items with
    | nil => exact .mark isMark_openList isMark_closeList.scans
    | cons item items =>
      have hscans := Scans.bracketed isMark_openList isMark_closeList hgap hgap ih
      rw [← compactItems_eq, ← itemTokens_eq] at hscans
      simpa [compact, tokens] using hscans
  | @record members h ih =>
    have hmembers := scans_members hgap ih
    unfold Value.record
    generalize (members.map fun (name, value) => (escape name.toList, value)) = written
      at hmembers ⊢
    cases written with
    | nil => exact .mark isMark_openObject isMark_closeObject.scans
    | cons member written =>
      have hscans := Scans.bracketed isMark_openObject isMark_closeObject hgap hgap hmembers
      rw [← compactMembers_eq, ← memberTokens_eq] at hscans
      simpa [compact, tokens] using hscans

theorem IsWritten.scans_pretty (h : value.IsWritten) (depth : Nat) :
    Scans (value.pretty depth) value.tokens := by
  have hspace : ∀ c ∈ [' '], isSpace c := List.forall_mem_singleton.2 rfl
  induction h generalizing depth with
  | null => exact .of_splitToken? rfl fun _ _ => rfl
  | bool b => cases b <;> exact .of_splitToken? rfl fun _ _ => rfl
  | ofNat n => exact scans_number n
  | ofString text => exact scans_string text.toList
  | @list items h ih =>
    cases items with
    | nil => exact .mark isMark_openList isMark_closeList.scans
    | cons item items =>
      have hscans := Scans.bracketed isMark_openList isMark_closeList (isSpace_newLine (depth + 1))
        (isSpace_newLine depth) fun item hitem => ih item hitem (depth + 1)
      rw [← prettyItems_eq, ← itemTokens_eq] at hscans
      simpa [pretty, tokens] using hscans
  | @record members h ih =>
    have hmembers := scans_members hspace fun member hmem => ih member hmem (depth + 1)
    unfold Value.record
    generalize (members.map fun (name, value) => (escape name.toList, value)) = written
      at hmembers ⊢
    cases written with
    | nil => exact .mark isMark_openObject isMark_closeObject.scans
    | cons member written =>
      have hscans := Scans.bracketed isMark_openObject isMark_closeObject
        (isSpace_newLine (depth + 1)) (isSpace_newLine depth) hmembers
      rw [← prettyMembers_eq, ← memberTokens_eq] at hscans
      simpa [pretty, tokens] using hscans

end Writing

/-! ## Reading -/

section Reading

/-- Enough fuel reads the value off the front of its tokens. -/
def ReadsBack (value : Value) : Prop :=
  ∀ fuel rest, 2 * value.tokens.length ≤ fuel →
    read fuel (value.tokens ++ rest) = some (value, rest)

theorem tokens_append_ne_closeList (value : Value) (rest rest' : List Token) :
    value.tokens ++ rest ≠ .closeList :: rest' := by
  intro heq
  cases value with
  | list items => cases items <;> simp [tokens] at heq
  | object members => cases members <;> simp [tokens] at heq
  | _ => simp [tokens] at heq

theorem readItems_tokens {item : Value} {items : List Value} {fuel : Nat} (rest : List Token)
    (h : ∀ item' ∈ item :: items, ReadsBack item')
    (hfuel : 2 * (item.tokens.length + (itemTokens items).length + 1) ≤ fuel) :
    readItems fuel (item.tokens ++ (itemTokens items ++ .closeList :: rest)) =
      some (item :: items, rest) := by
  induction items generalizing item fuel with
  | nil =>
    cases fuel with
    | zero => omega
    | succ fuel =>
      have hitem := h item List.mem_cons_self fuel (.closeList :: rest) (by omega)
      simp only [itemTokens, List.nil_append, readItems, hitem]
  | cons next items ih =>
    cases fuel with
    | zero => omega
    | succ fuel =>
      simp only [itemTokens, List.length_append, List.length_cons] at hfuel
      have hitem := h item List.mem_cons_self fuel
        (.comma :: (next.tokens ++ (itemTokens items ++ .closeList :: rest))) (by omega)
      have hitems := @ih next fuel (fun item' hmem => h item' (List.mem_cons_of_mem _ hmem))
        (by omega)
      simp only [itemTokens, List.cons_append, List.append_assoc, readItems, hitem, hitems,
        Option.map_some]

theorem readMembers_tokens {name : List Char} {value : Value}
    {members : List (List Char × Value)} {fuel : Nat} (rest : List Token)
    (h : ∀ member ∈ (name, value) :: members, ReadsBack member.2)
    (hfuel : 2 * (value.tokens.length + (memberTokens members).length + 3) ≤ fuel) :
    readMembers fuel (.string name :: .colon :: (value.tokens
        ++ (memberTokens members ++ .closeObject :: rest))) =
      some ((name, value) :: members, rest) := by
  have hvalue : ReadsBack value := h (name, value) List.mem_cons_self
  induction members generalizing name value fuel with
  | nil =>
    cases fuel with
    | zero => omega
    | succ fuel =>
      have hread := hvalue fuel (.closeObject :: rest) (by omega)
      simp only [memberTokens, List.nil_append, readMembers, hread]
  | cons next members ih =>
    cases fuel with
    | zero => omega
    | succ fuel =>
      simp only [memberTokens, List.length_append, List.length_cons] at hfuel
      have hread := hvalue fuel
        (.comma :: .string next.1 :: .colon :: (next.2.tokens
          ++ (memberTokens members ++ .closeObject :: rest))) (by omega)
      have hmembers := @ih next.1 next.2 fuel
        (fun member hmem => h member (List.mem_cons_of_mem _ hmem)) (by omega)
        (h next (List.mem_cons_of_mem _ List.mem_cons_self))
      simp only [memberTokens, List.cons_append, List.append_assoc, readMembers, hread, hmembers,
        Option.map_some]

theorem readsBack_list {items : List Value} (h : ∀ item ∈ items, ReadsBack item) :
    ReadsBack (list items) := by
  intro fuel rest hfuel
  cases fuel with
  | zero => cases items <;> simp [tokens] at hfuel
  | succ fuel =>
    cases items with
    | nil => rfl
    | cons item items =>
      simp only [tokens, List.length_append, List.length_cons, List.length_nil] at hfuel
      have hitems := @readItems_tokens item items fuel rest h (by omega)
      simp only [tokens, List.cons_append, List.append_assoc, List.nil_append]
      rw [read, hitems, Option.map_some]
      exact fun rest' => tokens_append_ne_closeList item _ rest'

theorem readsBack_object {members : List (List Char × Value)}
    (h : ∀ member ∈ members, ReadsBack member.2) : ReadsBack (object members) := by
  intro fuel rest hfuel
  cases fuel with
  | zero => cases members <;> simp [tokens] at hfuel
  | succ fuel =>
    cases members with
    | nil => rfl
    | cons member members =>
      simp only [tokens, List.length_append, List.length_cons, List.length_nil] at hfuel
      have hmembers := @readMembers_tokens member.1 member.2 members fuel rest h (by omega)
      simp only [tokens, List.cons_append, List.append_assoc, List.nil_append]
      rw [read, hmembers, Option.map_some]
      exact fun _ heq => nomatch heq

variable {value : Value}

theorem IsWritten.readsBack (h : value.IsWritten) : ReadsBack value := by
  induction h with
  | list h ih => exact readsBack_list ih
  | @record members h ih =>
    refine readsBack_object fun member hmem => ?_
    obtain ⟨⟨name, value⟩, hin, rfl⟩ := List.mem_map.1 hmem
    exact ih (name, value) hin
  | _ =>
    intro fuel rest hfuel
    cases fuel with
    | zero => cases hfuel
    | succ fuel => rfl

/-- A value is read back from what is scanned to its tokens, with white space behind it or not. -/
theorem IsWritten.ofText?_append (h : value.IsWritten) {text gap : List Char}
    (hscans : Scans text value.tokens) (hgap : ∀ c ∈ gap, isSpace c) :
    ofText? (String.ofList (text ++ gap)) = some value := by
  have hempty : tokens? gap = some [] := by
    induction gap with
    | nil => exact tokens?_nil
    | cons c gap ih =>
      rw [tokens?_cons_of_isSpace (hgap c List.mem_cons_self)]
      exact ih fun d hd => hgap d (List.mem_cons_of_mem _ hd)
  have htokens : tokens? (text ++ gap) = some value.tokens := by
    rw [hscans gap (endsNumber_of_isSpace hgap), hempty, Option.map_some, List.append_nil]
  have hread : read (2 * value.tokens.length + 2) value.tokens = some (value, []) := by
    simpa using h.readsBack (2 * value.tokens.length + 2) [] (by omega)
  rw [ofText?, String.toList_ofList, htokens]
  dsimp only
  rw [hread]

theorem IsWritten.ofText?_render (h : value.IsWritten) : ofText? value.render = some value := by
  have hgap := List.forall_mem_nil (isSpace · = true)
  simpa [render] using h.ofText?_append h.scans_compact hgap

theorem IsWritten.ofText?_renderPretty (h : value.IsWritten) :
    ofText? value.renderPretty = some value := by
  have hgap := List.forall_mem_nil (isSpace · = true)
  simpa [renderPretty] using h.ofText?_append (h.scans_pretty 0) hgap

theorem IsWritten.ofText?_line (h : value.IsWritten) :
    ofText? (value.renderPretty ++ "\n") = some value := by
  have hline : value.renderPretty ++ "\n" = String.ofList (value.pretty 0 ++ ['\n']) := by
    rw [renderPretty, String.ofList_append]
  rw [hline]
  exact h.ofText?_append (h.scans_pretty 0) (List.forall_mem_singleton.2 rfl)

end Reading

end RpcCatalog.Json.Value
