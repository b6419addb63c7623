import RpcCatalog.Grammar.SyntaxError
import RpcCatalog.Proofs.Grammar.Opaque

/-!
# Rendering

Every way in which well-formed declarations may be written down, and how the forms with gaps between
their tokens are read.

* `Declaration.IsWellFormed`: names are names, literals can stand in quotes, comments are comments.
* `Declaration.Renders`, `ServiceItem.Renders`: the texts of a declaration, with arbitrary gaps
  between its tokens. `RendersAll`: the texts of a list, with white space and semicolons in between.
* `rpcDeclaration_reads`, `rpcDeclaration_rejects`: a call is read back, one with a streamed type
  does not match.
-/

set_option autoImplicit false

namespace RpcCatalog

namespace Grammar

/-! ## Parts of texts -/

/-- A comment with its markers. A block comment says something. -/
inductive IsComment : List Char → Prop where
  | line {text : List Char} (h : ∀ c ∈ text, isLineEnd c = false) : IsComment ('/' :: '/' :: text)
  | block {text : List Char} (hne : text ≠ []) (h : ¬ ['*', '/'] <:+: text) :
    IsComment ('/' :: '*' :: (text ++ ['*', '/']))

/-- The texts of a type in parentheses. A streamed one has the word `stream` in front. -/
inductive RendersType : Bool → List Char → List Char → Prop where
  | unary {type g₁ g₂ : List Char} (h₁ : IsGap g₁) (h₂ : IsGap g₂) :
    RendersType false type ('(' :: (g₁ ++ (type ++ (g₂ ++ [')']))))
  | streamed {type g₁ g g₂ : List Char} (h₁ : IsGap g₁) (h : IsGap g) (hne : g ≠ [])
    (h₂ : IsGap g₂) :
    RendersType true type ('(' :: (g₁ ++ ("stream".toList ++ (g ++ (type ++ (g₂ ++ [')']))))))

theorem RendersType.exists_cons {streamed : Bool} {type t : List Char}
    (h : RendersType streamed type t) : ∃ s, t = '(' :: s := by
  cases h with
  | unary => exact ⟨_, rfl⟩
  | streamed => exact ⟨_, rfl⟩

/-- The texts of a call, with either type streamed or not. -/
inductive RendersRpc (streams streams' : Bool) (signature : RpcSignature) : List Char → Prop where
  | intro {g₁ g₂ g₃ g₄ g₅ request response ending : List Char} (h₁ : IsGap g₁) (hne : g₁ ≠ [])
    (h₂ : IsGap g₂) (hrequest : RendersType streams signature.requestType.toList request)
    (h₃ : IsGap g₃) (h₄ : IsGap g₄)
    (hresponse : RendersType streams' signature.responseType.toList response) (h₅ : IsGap g₅)
    (hending : IsEnding ending) :
    RendersRpc streams streams' signature
      ("rpc".toList ++ (g₁ ++ (signature.name.toList ++ (g₂ ++ (request ++ (g₃ ++
        ("returns".toList ++ (g₄ ++ (response ++ (g₅ ++ ending))))))))))

/-- The texts of an option. -/
inductive RendersOption (name value : String) : List Char → Prop where
  | intro {g₁ g₂ g₃ g₄ : List Char} (h₁ : IsGap g₁) (hne : g₁ ≠ []) (h₂ : IsGap g₂)
    (h₃ : IsGap g₃) (h₄ : IsGap g₄) :
    RendersOption name value
      ("option".toList ++ (g₁ ++ (name.toList ++ (g₂ ++ '=' :: (g₃ ++
        '"' :: (value.toList ++ '"' :: (g₄ ++ [';'])))))))

/-- White space and empty statements. -/
def IsSeparator (s : List Char) : Prop := ∀ c ∈ s, isBlank c ∨ c = ';'

/-- The texts of a list: the texts of its members with separators around them. After a line comment
the line ends, in the text or at what stops it. -/
inductive RendersAll {α : Type} (renders : α → List Char → Prop) (stop : List Char) :
    List α → List Char → Prop where
  | nil {s : List Char} (h : IsSeparator s) : RendersAll renders stop [] s
  | cons {s t rest : List Char} {a : α} {as : List α} (h : IsSeparator s) (ha : renders a t)
    (hline : ['/', '/'] <+: t → EndsLine (rest ++ stop)) (has : RendersAll renders stop as rest) :
    RendersAll renders stop (a :: as) (s ++ (t ++ rest))

end Grammar

open Grammar

/-! ## Well-formed declarations -/

/-- The item can be written down. -/
def ServiceItem.IsWellFormed : ServiceItem → Prop
  | .comment text => IsComment text.toList
  | .rpc signature => IsName signature.name.toList ∧ IsTypeName signature.requestType.toList ∧
      IsTypeName signature.responseType.toList
  | .other => True

/-- The declaration can be written down. -/
def Declaration.IsWellFormed : Declaration → Prop
  | .importing path => IsPlain path.toList
  | .package name => IsDotted name.toList
  | .option name value => IsDotted name.toList ∧ IsPlain value.toList
  | .comment text => IsComment text.toList
  | .message name => IsName name.toList
  | .service name items => IsName name.toList ∧ ∀ item ∈ items, item.IsWellFormed
  | .other => True

/-! ## Texts -/

/-- The texts of a service item. What is not modelled is a call with a streamed type or an
option. -/
inductive ServiceItem.Renders : ServiceItem → List Char → Prop where
  | comment {text : String} : Renders (.comment text) text.toList
  | rpc {signature : RpcSignature} {t : List Char} (h : RendersRpc false false signature t) :
    Renders (.rpc signature) t
  | streaming {signature : RpcSignature} {streams streams' : Bool} {t : List Char}
    (hsignature : (ServiceItem.rpc signature).IsWellFormed) (hstreams : streams ∨ streams')
    (h : RendersRpc streams streams' signature t) : Renders .other t
  | option {name value : String} {t : List Char}
    (hoption : (Declaration.option name value).IsWellFormed) (h : RendersOption name value t) :
    Renders .other t

/-- The texts of a declaration. What is not modelled is a version statement, in which there is white
space alone between the tokens. -/
inductive Declaration.Renders : Declaration → List Char → Prop where
  | importing {path : String} {g₁ g₂ : List Char} (h₁ : IsGap g₁) (h₂ : IsGap g₂) :
    Renders (.importing path)
      ("import".toList ++ (g₁ ++ '"' :: (path.toList ++ '"' :: (g₂ ++ [';']))))
  | package {name : String} {g₁ g₂ : List Char} (h₁ : IsGap g₁) (hne : g₁ ≠ []) (h₂ : IsGap g₂) :
    Renders (.package name) ("package".toList ++ (g₁ ++ (name.toList ++ (g₂ ++ [';']))))
  | option {name value : String} {t : List Char} (h : RendersOption name value t) :
    Renders (.option name value) t
  | comment {text : String} : Renders (.comment text) text.toList
  | message {name : String} {g₁ g₂ : List Char} (h₁ : IsGap g₁) (hne : g₁ ≠ []) (h₂ : IsGap g₂) :
    Renders (.message name) ("message".toList ++ (g₁ ++ (name.toList ++ (g₂ ++ ['{', '}']))))
  | service {name : String} {items : List ServiceItem} {g₁ g₂ t : List Char} (h₁ : IsGap g₁)
    (hne : g₁ ≠ []) (h₂ : IsGap g₂) (hitems : RendersAll ServiceItem.Renders ['}'] items t) :
    Renders (.service name items)
      ("service".toList ++ (g₁ ++ (name.toList ++ (g₂ ++ '{' :: (t ++ ['}'])))))
  | version {text : String} {s₁ s₂ s₃ : List Char} (htext : IsPlain text.toList)
    (h₁ : ∀ c ∈ s₁, isBlank c) (h₂ : ∀ c ∈ s₂, isBlank c) (h₃ : ∀ c ∈ s₃, isBlank c) :
    Renders .other
      ("syntax".toList ++ (s₁ ++ '=' :: (s₂ ++ '"' :: (text.toList ++ '"' :: (s₃ ++ [';'])))))

namespace Grammar

/-! ## Declarations with gaps -/

theorem importDeclaration_reads {path : String} {g₁ g₂ : List Char} (h₁ : IsGap g₁)
    (h₂ : IsGap g₂) (hpath : IsPlain path.toList) (r : List Char) :
    importDeclaration.Reads
      ("import".toList ++ (g₁ ++ '"' :: (path.toList ++ '"' :: (g₂ ++ ';' :: r)))) path
      (skipBlanks r) := by
  have hsolid : IsSolid ('"' :: (path.toList ++ '"' :: (g₂ ++ ';' :: r))) :=
    isSolid_of_isMark rfl _
  have hmodifier : importModifier.Rejects ('"' :: (path.toList ++ '"' :: (g₂ ++ ';' :: r))) :=
    .lexeme rfl
  have hopening : (opening .importWord "import").Reads _ () _ :=
    opening_reads h₁ hsolid fun _ => endsName_of_isMark rfl _
  have hgaps := (hopening.seqRight (.optional_none hmodifier hsolid.skipBlanks_eq)).seqRight
    (gap_reads_empty hsolid)
  exact .named <| (hgaps.seqRight (literal_reads hpath)).seqLeft (closing_reads h₂ r)

theorem packageDeclaration_reads {name : String} {g₁ g₂ : List Char} (h₁ : IsGap g₁)
    (hne : g₁ ≠ []) (h₂ : IsGap g₂) (hname : IsDotted name.toList) (r : List Char) :
    packageDeclaration.Reads ("package".toList ++ (g₁ ++ (name.toList ++ (g₂ ++ ';' :: r)))) name
      (skipBlanks r) := by
  have hopening : (opening .packageWord "package").Reads _ () _ :=
    opening_reads h₁ (hname.isSolid (g₂ ++ ';' :: r)) fun e => absurd e hne
  have hend : EndsName (g₂ ++ ';' :: r) := h₂.endsName fun _ => endsName_of_isMark rfl r
  have hname' := hopening.seqRight (dottedNameToken_reads hname hend)
  exact .named (hname'.seqLeft (closing_reads h₂ r))

theorem optionDeclaration_reads {name value : String} {t : List Char}
    (h : RendersOption name value t) (hname : IsDotted name.toList) (hvalue : IsPlain value.toList)
    (r : List Char) : optionDeclaration.Reads (t ++ r) (name, value) (skipBlanks r) := by
  cases h with
  | @intro g₁ g₂ g₃ g₄ h₁ hne h₂ h₃ h₄ =>
    simp only [List.append_assoc, List.cons_append, List.nil_append]
    have hhead : (opening .optionWord "option" *> Phrase.lexeme .optionName optionName
        <* gap).Reads _ name _ :=
      heading_reads h₁ hne h₂ hname.isSolid (optionName_reads hname) '=' rfl
        (g₃ ++ '"' :: (value.toList ++ '"' :: (g₄ ++ ';' :: r)))
    have hquote : isMark '"' := rfl
    have hgap := h₃.reads (isSolid_of_isMark hquote (value.toList ++ '"' :: (g₄ ++ ';' :: r)))
    have hconstant : constant.Reads ('"' :: (value.toList ++ '"' :: (g₄ ++ ';' :: r))) value
        (skipBlanks (g₄ ++ ';' :: r)) :=
      .named (.orElse_left (literal_reads hvalue))
    have hright := ((punctuation_reads '=' _).seqRight hgap).seqRight hconstant
    exact .named <| hhead.seq (hright.seqLeft (closing_reads h₄ r))

theorem messageDeclaration_reads {name : String} {g₁ g₂ b r : List Char} (h₁ : IsGap g₁)
    (hne : g₁ ≠ []) (h₂ : IsGap g₂) (hname : IsName name.toList)
    (hbody : body ('{' :: b ++ r) = some ('{' :: b, r)) :
    messageDeclaration.Reads ("message".toList ++ (g₁ ++ (name.toList ++ (g₂ ++ '{' :: b ++ r))))
      name (skipBlanks r) := by
  have hhead : (opening .messageWord "message" *> nameToken <* gap).Reads _ name _ :=
    heading_reads h₁ hne h₂ hname.isSolid (nameToken_reads hname) '{' rfl (b ++ r)
  have hblock : block.Reads ('{' :: b ++ r) _ (skipBlanks r) := .lexeme hbody
  rw [List.append_assoc]
  exact .named <| hhead.seqLeft hblock

/-! ## Calls -/

theorem parenthesized_reads {rule : Rule} {type : String} {t : List Char}
    (h : RendersType false type.toList t) (htype : IsTypeName type.toList) (r : List Char) :
    (parenthesized rule).Reads (t ++ r) type (skipBlanks r) := by
  cases h with
  | @unary _ g₁ g₂ h₁ h₂ =>
    simp only [List.append_assoc, List.cons_append, List.nil_append]
    have hopen := (punctuation_reads '(' (g₁ ++ (type.toList ++ (g₂ ++ ')' :: r)))).seqRight
      (h₁.reads (htype.isSolid (g₂ ++ ')' :: r)))
    have htoken : (Phrase.named rule (Phrase.lexeme .typeName typeName)).Reads
        (type.toList ++ (g₂ ++ ')' :: r)) type (skipBlanks (g₂ ++ ')' :: r)) :=
      .named (typeName_reads htype (h₂.endsName fun _ => endsName_of_isMark rfl r))
    have hgap := h₂.reads (isSolid_of_isMark (show isMark ')' from rfl) r)
    exact ((hopen.seqRight htoken).seqLeft hgap).seqLeft (punctuation_reads ')' r)

theorem isTypeName_stream : IsTypeName "stream".toList :=
  .relative (.name ⟨'s', ['t', 'r', 'e', 'a', 'm'], rfl, rfl, List.all_eq_true.1 rfl⟩)

/-- The word in front of a streamed type is taken for the type, after which the parenthesis should
close. -/
theorem parenthesized_rejects {rule : Rule} {type t : List Char} (h : RendersType true type t)
    (htype : IsTypeName type) (r : List Char) : (parenthesized rule).Rejects (t ++ r) := by
  cases h with
  | @streamed _ g₁ g g₂ h₁ hg hne h₂ =>
    simp only [List.append_assoc, List.cons_append, List.nil_append]
    have hopen := (punctuation_reads '('
      (g₁ ++ ("stream".toList ++ (g ++ (type ++ (g₂ ++ ')' :: r)))))).seqRight
        (h₁.reads (isTypeName_stream.isSolid (g ++ (type ++ (g₂ ++ ')' :: r)))))
    have htoken : (Phrase.named rule (Phrase.lexeme .typeName typeName)).Reads
        ("stream".toList ++ (g ++ (type ++ (g₂ ++ ')' :: r)))) "stream"
        (skipBlanks (g ++ (type ++ (g₂ ++ ')' :: r)))) :=
      .named (typeName_reads isTypeName_stream (hg.endsName fun e => absurd e hne))
    have hgap := hg.reads (htype.isSolid (g₂ ++ ')' :: r))
    have hclose : (punctuation ')').Rejects (type ++ (g₂ ++ ')' :: r)) := by
      obtain ⟨c, s, rfl, hc⟩ := htype.exists_cons
      refine .mark ?_
      rintro rfl
      obtain hc | hc := hc <;> cases hc
    exact .seq_right ((hopen.seqRight htoken).seqLeft hgap) hclose

theorem ending_reads {e : List Char} (he : IsEnding e) (r : List Char) :
    (punctuation ';' <|> (fun _ => ()) <$> block).Reads (e ++ r) () (skipBlanks r) := by
  cases he with
  | semicolon => exact .orElse_left (punctuation_reads ';' r)
  | block => exact .orElse_right (.mark (by decide)) (.map (block_reads r))

theorem IsEnding.isSolid {e : List Char} (he : IsEnding e) (r : List Char) : IsSolid (e ++ r) := by
  cases he with
  | semicolon => exact isSolid_of_isMark rfl r
  | block => exact isSolid_of_isMark rfl ('}' :: r)

section Rpc

variable {streams streams' : Bool} {signature : RpcSignature} {t : List Char}

theorem isSolid_returns (s : List Char) : IsSolid ("returns".toList ++ s) :=
  isSolid_of_isNameStart (show isNameStart 'r' from rfl) _

/-- The part of a call from its second keyword on. -/
def returning : Phrase String :=
  opening .returnsWord "returns" *> parenthesized .responseType <* gap
    <* (punctuation ';' <|> (fun _ => ()) <$> block)

theorem returning_reads {type : String} {g₄ g₅ response e : List Char} (h₄ : IsGap g₄)
    (h : RendersType false type.toList response) (htype : IsTypeName type.toList) (h₅ : IsGap g₅)
    (he : IsEnding e) (r : List Char) :
    returning.Reads ("returns".toList ++ (g₄ ++ (response ++ (g₅ ++ (e ++ r))))) type
      (skipBlanks r) := by
  have htype' : (parenthesized .responseType).Reads _ type _ :=
    parenthesized_reads h htype (g₅ ++ (e ++ r))
  obtain ⟨s, rfl⟩ := h.exists_cons
  have hopening : (opening .returnsWord "returns").Reads _ () _ :=
    opening_reads h₄ (isSolid_of_isMark (show isMark '(' from rfl) (s ++ (g₅ ++ (e ++ r))))
      fun _ => endsName_of_isMark rfl _
  exact ((hopening.seqRight htype').seqLeft (h₅.reads (he.isSolid r))).seqLeft (ending_reads he r)

theorem returning_rejects {type g₄ response : List Char} (h₄ : IsGap g₄)
    (h : RendersType true type response) (htype : IsTypeName type) (r : List Char) :
    returning.Rejects ("returns".toList ++ (g₄ ++ (response ++ r))) := by
  have htype' : (parenthesized .responseType).Rejects _ := parenthesized_rejects h htype r
  obtain ⟨s, rfl⟩ := h.exists_cons
  have hopening : (opening .returnsWord "returns").Reads _ () _ :=
    opening_reads h₄ (isSolid_of_isMark (show isMark '(' from rfl) (s ++ r))
      fun _ => endsName_of_isMark rfl _
  exact .seq_left (.seq_left (.seq_right hopening htype'))

theorem rpcHead_reads {name : String} {g₁ g₂ : List Char} (h₁ : IsGap g₁) (hne : g₁ ≠ [])
    (h₂ : IsGap g₂) (hname : IsName name.toList) (s : List Char) :
    (opening .rpcWord "rpc" *> Phrase.named .methodName nameToken <* gap).Reads
      ("rpc".toList ++ (g₁ ++ (name.toList ++ (g₂ ++ '(' :: s)))) name ('(' :: s) :=
  heading_reads h₁ hne h₂ hname.isSolid (fun hr => .named (nameToken_reads hname hr)) '(' rfl s

theorem rpcDeclaration_reads (h : RendersRpc false false signature t)
    (hsignature : (ServiceItem.rpc signature).IsWellFormed) (r : List Char) :
    rpcDeclaration.Reads (t ++ r) signature (skipBlanks r) := by
  obtain ⟨hname, hrequestType, hresponseType⟩ := hsignature
  cases h with
  | @intro g₁ g₂ g₃ g₄ g₅ request response e h₁ hne h₂ hrequest h₃ h₄ hresponse h₅ he =>
    simp only [List.append_assoc]
    have hresponse' := returning_reads h₄ hresponse hresponseType h₅ he r
    have hrequest' : (parenthesized .requestType).Reads _ signature.requestType _ :=
      parenthesized_reads hrequest hrequestType
        (g₃ ++ ("returns".toList ++ (g₄ ++ (response ++ (g₅ ++ (e ++ r))))))
    have hgapped := hrequest'.seqLeft (h₃.reads (isSolid_returns _))
    obtain ⟨s, rfl⟩ := hrequest.exists_cons
    have hhead := rpcHead_reads h₁ hne h₂ hname
      (s ++ (g₃ ++ ("returns".toList ++ (g₄ ++ (response ++ (g₅ ++ (e ++ r)))))))
    exact .named (hhead.seq (hgapped.seq hresponse'))

/-- A call with a streamed type does not match. -/
theorem rpcDeclaration_rejects (h : RendersRpc streams streams' signature t)
    (hsignature : (ServiceItem.rpc signature).IsWellFormed) (hstreams : streams ∨ streams')
    (r : List Char) : rpcDeclaration.Rejects (t ++ r) := by
  obtain ⟨hname, hrequestType, hresponseType⟩ := hsignature
  cases h with
  | @intro g₁ g₂ g₃ g₄ g₅ request response e h₁ hne h₂ hrequest h₃ h₄ hresponse h₅ he =>
    simp only [List.append_assoc]
    have htypes : (Phrase.seq Prod.mk (parenthesized .requestType <* gap) returning).Rejects
        (request ++ (g₃ ++ ("returns".toList ++ (g₄ ++ (response ++ (g₅ ++ (e ++ r))))))) := by
      cases streams with
      | true => exact .seq_left (.seq_left (parenthesized_rejects hrequest hrequestType _))
      | false =>
        obtain rfl : streams' = true := by simpa using hstreams
        have hrequest' : (parenthesized .requestType).Reads _ signature.requestType _ :=
          parenthesized_reads hrequest hrequestType
            (g₃ ++ ("returns".toList ++ (g₄ ++ (response ++ (g₅ ++ (e ++ r))))))
        have hgapped := hrequest'.seqLeft (h₃.reads (isSolid_returns _))
        exact .seq_right hgapped (returning_rejects h₄ hresponse hresponseType _)
    obtain ⟨s, rfl⟩ := hrequest.exists_cons
    have hhead := rpcHead_reads h₁ hne h₂ hname
      (s ++ (g₃ ++ ("returns".toList ++ (g₄ ++ (response ++ (g₅ ++ (e ++ r)))))))
    exact .named (.seq_right hhead htypes)

theorem RendersType.isLoose {streamed : Bool} {type : List Char} (h : RendersType streamed type t)
    (htype : IsTypeName type) : IsLoose t := by
  cases h with
  | unary h₁ h₂ =>
    exact .char rfl (h₁.isLoose.append (htype.isLoose.append (h₂.isLoose.append (.char rfl .nil))))
  | streamed h₁ h _ h₂ =>
    exact .char rfl (h₁.isLoose.append (isTypeName_stream.isLoose.append
      (h.isLoose.append (htype.isLoose.append (h₂.isLoose.append (.char rfl .nil))))))

theorem opaqueToken_reads_rpc (h : RendersRpc streams streams' signature t)
    (hsignature : (ServiceItem.rpc signature).IsWellFormed) (r : List Char) :
    opaqueToken.Reads (t ++ r) (String.ofList t) (skipBlanks r) := by
  obtain ⟨hname, hrequestType, hresponseType⟩ := hsignature
  cases h with
  | @intro g₁ g₂ g₃ g₄ g₅ request response e h₁ hne h₂ hrequest h₃ h₄ hresponse h₅ he =>
    have hrpc : IsLoose "rpc".toList := isLoose_of_forall (List.all_eq_true.1 rfl)
    have hreturns : IsLoose "returns".toList := isLoose_of_forall (List.all_eq_true.1 rfl)
    have hloose := hrpc.append (h₁.isLoose.append (hname.isLoose.append (h₂.isLoose.append
      ((hrequest.isLoose hrequestType).append (h₃.isLoose.append (hreturns.append
        (h₄.isLoose.append ((hresponse.isLoose hresponseType).append h₅.isLoose))))))))
    simpa using opaqueToken_reads hloose (by simp) he r

end Rpc

end Grammar

end RpcCatalog
