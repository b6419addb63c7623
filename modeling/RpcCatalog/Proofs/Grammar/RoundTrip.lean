import RpcCatalog.Proofs.Grammar.Rendering

/-!
# Parsing undoes rendering

The alternatives of the grammar that come before the one a declaration was written by do not match
its text, and lists of declarations are read member by member.

* `serviceItem_reads`, `declaration_reads`: an item, a declaration is read back from any of its
  texts.
* `RendersAll.readsMany`: so is a list of them.
* `parseDeclarations_rendersAll`: declarations have texts, and from each of them well-formed ones
  are parsed back.
-/

set_option autoImplicit false

namespace RpcCatalog

namespace Grammar

/-! ## Comments -/

theorem docComment_eq_none {s : List Char} (h : ∀ c ∈ s.head?, c ≠ '*') :
    docComment ('/' :: '*' :: s) = none := by
  unfold docComment
  split
  · next heq => exact absurd rfl (h '*' (by simp [(List.cons.inj (List.cons.inj heq).2).2]))
  · rfl

/-- A comment is read back; a line comment, where the line ends after it. -/
theorem comment_reads {t : List Char} (h : IsComment t) {r : List Char}
    (hline : ['/', '/'] <+: t → EndsLine r) :
    comment.Reads (t ++ r) (String.ofList t) (skipBlanks r) := by
  refine .named ?_
  cases h with
  | @line text htext =>
    have hscan : lineComment ('/' :: '/' :: text ++ r) = some ('/' :: '/' :: text, r) :=
      lineComment_append htext (hline ⟨text, rfl⟩)
    exact .orElse_right (.lexeme rfl) (.orElse_right (.lexeme rfl) (.lexeme hscan))
  | @block text hne htext =>
    have hscan : blockComment ('/' :: '*' :: (text ++ ['*', '/']) ++ r) =
        some ('/' :: '*' :: (text ++ ['*', '/']), r) := by
      simpa using blockComment_append htext r
    obtain ⟨c, text, rfl⟩ := List.exists_cons_of_ne_nil hne
    by_cases hc : c = '*'
    · subst hc
      have htext' : ¬ ['*', '/'] <:+: text :=
        fun hmem => htext (hmem.trans (List.suffix_cons '*' text).isInfix)
      have hdoc : docComment ('/' :: '*' :: ('*' :: text ++ ['*', '/']) ++ r) =
          some ('/' :: '*' :: ('*' :: text ++ ['*', '/']), r) := by
        have hend := throughCommentEnd_append htext' r
        simp [docComment, hend]
      exact .orElse_left (.lexeme hdoc)
    · have hdoc : docComment ('/' :: '*' :: (c :: text ++ ['*', '/']) ++ r) = none :=
        docComment_eq_none fun d hd => by cases hd; exact hc
      exact .orElse_right (.lexeme hdoc) (.orElse_left (.lexeme hscan))

theorem comment_rejects {s : List Char} (h : ∀ c ∈ s.head?, c ≠ '/') : comment.Rejects s := by
  have hdoc : docComment s = none := by
    unfold docComment
    split
    · exact absurd rfl (h '/' rfl)
    · rfl
  exact .named (.orElse (.lexeme hdoc)
    (.orElse (.lexeme (blockComment_eq_none h)) (.lexeme (lineComment_eq_none h))))

theorem comment_rejects_cons {c : Char} (h : c ≠ '/') (s : List Char) :
    comment.Rejects (c :: s) :=
  comment_rejects fun d hd => by cases hd; exact h

/-! ## Alternatives that do not match -/

theorem keyword_rejects {rule : Rule} {word : String} {s : List Char}
    (h : Text.afterPrefix word.toList s = none) : (keyword rule word).Rejects s := by
  refine .map (.lexeme ?_)
  rw [wholeWord, h]

theorem opening_rejects {rule : Rule} {word : String} {s : List Char}
    (h : Text.afterPrefix word.toList s = none) : (opening rule word).Rejects s :=
  .seq_left (keyword_rejects h)

section Rejects

variable {s : List Char}

theorem syntaxDeclaration_rejects (h : Text.afterPrefix "syntax".toList s = none) :
    syntaxDeclaration.Rejects s :=
  .named (.seq_left (.seq_left (.seq_left (keyword_rejects h))))

theorem editionDeclaration_rejects (h : Text.afterPrefix "edition".toList s = none) :
    editionDeclaration.Rejects s :=
  .named (.seq_left (.seq_left (.seq_left (keyword_rejects h))))

theorem importDeclaration_rejects (h : Text.afterPrefix "import".toList s = none) :
    importDeclaration.Rejects s :=
  .named (.seq_left (.seq_left (.seq_left (.seq_left (opening_rejects h)))))

theorem packageDeclaration_rejects (h : Text.afterPrefix "package".toList s = none) :
    packageDeclaration.Rejects s :=
  .named (.seq_left (.seq_left (opening_rejects h)))

theorem optionDeclaration_rejects (h : Text.afterPrefix "option".toList s = none) :
    optionDeclaration.Rejects s :=
  .named (.seq_left (.seq_left (.seq_left (opening_rejects h))))

theorem messageDeclaration_rejects (h : Text.afterPrefix "message".toList s = none) :
    messageDeclaration.Rejects s :=
  .named (.seq_left (.seq_left (.seq_left (opening_rejects h))))

theorem serviceDeclaration_rejects (h : Text.afterPrefix "service".toList s = none) :
    serviceDeclaration.Rejects s :=
  .named (.seq_left (.seq_left (.seq_left (.seq_left (opening_rejects h)))))

theorem rpcDeclaration_rejects_of_afterPrefix (h : Text.afterPrefix "rpc".toList s = none) :
    rpcDeclaration.Rejects s :=
  .named (.seq_left (.seq_left (.seq_left (opening_rejects h))))

theorem opaqueToken_rejects_nil : opaqueToken.Rejects [] := by
  refine .lexeme ?_
  rw [opaqueDeclaration, opaqueRun]

theorem opaqueToken_rejects_close : opaqueToken.Rejects ('}' :: s) := by
  refine .lexeme ?_
  simp [opaqueDeclaration, opaqueRun]

end Rejects

/-! ## Lists -/

theorem EndsLine.append {s r : List Char} (h : EndsLine s) (hr : s = [] → EndsLine r) :
    EndsLine (s ++ r) := by
  cases s with
  | nil => exact hr rfl
  | cons c s => exact h

section RendersAll

variable {α : Type} {item : Phrase (Option α)} {renders : α → List Char → Prop}

theorem IsSeparator.readsMany {s r u : List Char} {values : List (Option α)} (h : IsSeparator s)
    (hempty : ∀ r, item.Reads (';' :: r) none (skipBlanks r)) (hr : item.ReadsMany r values u) :
    ∃ values', item.ReadsMany (s ++ r) values' u ∧ values'.filterMap id = values.filterMap id := by
  induction s with
  | nil => exact ⟨values, hr, rfl⟩
  | cons c s ih =>
    obtain ⟨hc, hs⟩ := List.forall_mem_cons.1 h
    obtain ⟨values', hmany, hvalues⟩ := ih hs
    obtain hblank | rfl := hc
    · exact ⟨values', hmany.of_skipBlanks (skipBlanks_cons_of_isBlank hblank _), hvalues⟩
    · have hcons : item.ReadsMany ([';'] ++ (s ++ r)) (none :: values') u :=
        .cons_append rfl (List.cons_ne_nil _ _) (hempty (s ++ r)) hmany
      exact ⟨none :: values', hcons, hvalues⟩

/-- A list is read back from its texts, up to what stops it, if its members are. -/
theorem RendersAll.readsMany {stop t r : List Char} {as : List α}
    (h : RendersAll renders stop as t)
    (hitem : ∀ a ∈ as, ∀ t, renders a t → ∀ r, (['/', '/'] <+: t → EndsLine r) →
      item.Reads (t ++ r) (some a) (skipBlanks r))
    (hfront : ∀ a ∈ as, ∀ t, renders a t → ∀ r, t ≠ [] ∧ skipBlanks (t ++ r) = t ++ r)
    (hempty : ∀ r, item.Reads (';' :: r) none (skipBlanks r))
    (hstop : item.Rejects (stop ++ r)) (hsolid : skipBlanks (stop ++ r) = stop ++ r)
    (hr : stop = [] → r = []) :
    ∃ values, item.ReadsMany (t ++ (stop ++ r)) values (stop ++ r) ∧ values.filterMap id = as := by
  induction h with
  | nil hs =>
    have hnil : item.ReadsMany (stop ++ r) [] (skipBlanks (stop ++ r)) :=
      .nil (by rw [hsolid]; exact hstop)
    rw [hsolid] at hnil
    exact hs.readsMany hempty hnil
  | @cons s t rest a as hs ha hline _ ih =>
    obtain ⟨hitemHead, hitemRest⟩ := List.forall_mem_cons.1 hitem
    obtain ⟨hfrontHead, hfrontRest⟩ := List.forall_mem_cons.1 hfront
    obtain ⟨values, hmany, hvalues⟩ := ih hitemRest hfrontRest
    have hend : ['/', '/'] <+: t → EndsLine (rest ++ (stop ++ r)) := by
      intro hcomment
      rw [← List.append_assoc]
      refine (hline hcomment).append fun hnil => ?_
      rw [hr (List.append_eq_nil_iff.1 hnil).2]
      exact fun c hc => by cases hc
    obtain ⟨hne, hblank⟩ := hfrontHead t ha (rest ++ (stop ++ r))
    have hcons : item.ReadsMany (t ++ (rest ++ (stop ++ r))) (some a :: values) (stop ++ r) :=
      .cons_append hblank hne (hitemHead t ha _ hend) hmany
    obtain ⟨values', hmany', hvalues'⟩ := hs.readsMany hempty hcons
    refine ⟨values', by simpa using hmany', ?_⟩
    rw [hvalues', List.filterMap_cons, hvalues]
    rfl

theorem exists_rendersAll {stop : List Char} {as : List α} (h : ∀ a ∈ as, ∃ t, renders a t) :
    ∃ t, RendersAll renders stop as t ∧ EndsLine (t ++ stop) := by
  have hseparator : IsSeparator ['\n'] := fun c hc => .inl (by rw [List.mem_singleton.1 hc]; rfl)
  have hend : ∀ t, EndsLine ('\n' :: t ++ stop) := fun t c hc => by cases hc; rfl
  induction as with
  | nil => exact ⟨['\n'], .nil hseparator, hend []⟩
  | cons a as ih =>
    obtain ⟨⟨t, ha⟩, has⟩ := List.forall_mem_cons.1 h
    obtain ⟨rest, hrest, hline⟩ := ih has
    exact ⟨['\n'] ++ (t ++ rest), .cons hseparator ha (fun _ => hline) hrest, hend _⟩

end RendersAll

/-! ## Service items -/

theorem RendersRpc.exists_append {streams streams' : Bool} {signature : RpcSignature}
    {t : List Char} (h : RendersRpc streams streams' signature t) : ∃ s, t = "rpc".toList ++ s := by
  cases h with
  | intro => exact ⟨_, rfl⟩

theorem RendersOption.exists_append {name value : String} {t : List Char}
    (h : RendersOption name value t) : ∃ s, t = "option".toList ++ s := by
  cases h with
  | intro => exact ⟨_, rfl⟩

theorem IsComment.exists_cons {t : List Char} (h : IsComment t) : ∃ s, t = '/' :: s := by
  cases h with
  | line => exact ⟨_, rfl⟩
  | block => exact ⟨_, rfl⟩

theorem serviceItem_reads {item : ServiceItem} {t : List Char} (h : item.Renders t)
    (hitem : item.IsWellFormed) {r : List Char} (hline : ['/', '/'] <+: t → EndsLine r) :
    serviceItem.Reads (t ++ r) (some item) (skipBlanks r) := by
  cases h with
  | @comment text =>
    have hcomment := comment_reads hitem hline
    rw [String.ofList_toList] at hcomment
    exact .orElse_left hcomment.map
  | @rpc signature _ h =>
    have hrpc := rpcDeclaration_reads h hitem r
    obtain ⟨s, rfl⟩ := h.exists_append
    have hcomment : comment.Rejects ("rpc".toList ++ s ++ r) :=
      comment_rejects_cons (by decide) _
    exact .orElse_right hcomment.map (.orElse_left hrpc.map)
  | @streaming signature _ _ _ hsignature hstreams h =>
    have hrpc := rpcDeclaration_rejects h hsignature hstreams r
    have hopaque := opaqueToken_reads_rpc h hsignature r
    obtain ⟨s, rfl⟩ := h.exists_append
    have hcomment : comment.Rejects ("rpc".toList ++ s ++ r) :=
      comment_rejects_cons (by decide) _
    have hoption : optionDeclaration.Rejects ("rpc".toList ++ s ++ r) :=
      optionDeclaration_rejects rfl
    have hempty : (punctuation ';').Rejects ("rpc".toList ++ s ++ r) := .mark (by decide)
    exact .orElse_right hcomment.map <| .orElse_right hrpc.map <| .orElse_right hoption.map <|
      .orElse_right hempty.map hopaque.map
  | @option name value _ hoption h =>
    have hread := optionDeclaration_reads h hoption.1 hoption.2 r
    obtain ⟨s, rfl⟩ := h.exists_append
    have hcomment : comment.Rejects ("option".toList ++ s ++ r) :=
      comment_rejects_cons (by decide) _
    have hrpc : rpcDeclaration.Rejects ("option".toList ++ s ++ r) :=
      rpcDeclaration_rejects_of_afterPrefix rfl
    exact .orElse_right hcomment.map (.orElse_right hrpc.map (.orElse_left hread.map))

theorem serviceItem_front {item : ServiceItem} {t : List Char} (h : item.Renders t)
    (hitem : item.IsWellFormed) (r : List Char) : t ≠ [] ∧ skipBlanks (t ++ r) = t ++ r := by
  cases h with
  | comment =>
    obtain ⟨s, hs⟩ := IsComment.exists_cons hitem
    rw [hs]
    exact ⟨List.cons_ne_nil _ _, rfl⟩
  | rpc h | streaming _ _ h | option _ h =>
    obtain ⟨s, rfl⟩ := h.exists_append
    exact ⟨List.cons_ne_nil _ _, rfl⟩

theorem serviceItem_reads_empty (r : List Char) :
    serviceItem.Reads (';' :: r) none (skipBlanks r) := by
  have hcomment : comment.Rejects (';' :: r) := comment_rejects_cons (by decide) r
  have hrpc : rpcDeclaration.Rejects (';' :: r) := rpcDeclaration_rejects_of_afterPrefix rfl
  have hoption : optionDeclaration.Rejects (';' :: r) := optionDeclaration_rejects rfl
  exact .orElse_right hcomment.map <| .orElse_right hrpc.map <| .orElse_right hoption.map <|
    .orElse_left (punctuation_reads ';' r).map

theorem serviceItem_rejects_close (r : List Char) : serviceItem.Rejects ('}' :: r) := by
  have hcomment : comment.Rejects ('}' :: r) := comment_rejects_cons (by decide) r
  have hrpc : rpcDeclaration.Rejects ('}' :: r) := rpcDeclaration_rejects_of_afterPrefix rfl
  have hoption : optionDeclaration.Rejects ('}' :: r) := optionDeclaration_rejects rfl
  have hempty : (punctuation ';').Rejects ('}' :: r) := .mark (by decide)
  exact hcomment.map.orElse <| hrpc.map.orElse <| hoption.map.orElse <| hempty.map.orElse
    opaqueToken_rejects_close.map

/-! ## Declarations -/

theorem serviceDeclaration_reads {name : String} {items : List ServiceItem}
    {g₁ g₂ t : List Char} (h₁ : IsGap g₁) (hne : g₁ ≠ []) (h₂ : IsGap g₂)
    (hitems : RendersAll ServiceItem.Renders ['}'] items t) (hname : IsName name.toList)
    (hwell : ∀ item ∈ items, item.IsWellFormed) (r : List Char) :
    serviceDeclaration.Reads
      ("service".toList ++ (g₁ ++ (name.toList ++ (g₂ ++ '{' :: (t ++ '}' :: r)))))
      (name, items) (skipBlanks r) := by
  have hhead : (opening .serviceWord "service" *> nameToken <* gap).Reads _ name _ :=
    heading_reads h₁ hne h₂ hname.isSolid (nameToken_reads hname) '{' rfl (t ++ '}' :: r)
  obtain ⟨values, hmany, hvalues⟩ := hitems.readsMany
    (fun i hi t ht r hline => serviceItem_reads ht (hwell i hi) hline)
    (fun i hi t ht r => serviceItem_front ht (hwell i hi) r) serviceItem_reads_empty
    (serviceItem_rejects_close r) rfl (fun h => by cases h)
  have hbody : (Phrase.many serviceItem <* punctuation '}').Reads
      (skipBlanks (t ++ '}' :: r)) values (skipBlanks r) :=
    (hmany.of_skipBlanks (skipBlanks_skipBlanks _)).reads.seqLeft (punctuation_reads '}' r)
  rw [← hvalues]
  exact .named ((hhead.seqLeft (punctuation_reads '{' _)).seq hbody)

theorem skipBlanks_append_mark {s t : List Char} {c : Char} (hs : ∀ d ∈ s, isBlank d)
    (hc : isMark c) : skipBlanks (s ++ c :: t) = c :: t := by
  rw [skipBlanks, List.dropWhile_append_of_pos hs]
  exact (isSolid_of_isMark hc t).skipBlanks_eq

theorem isGap_of_forall_isBlank {s : List Char} (h : ∀ c ∈ s, isBlank c) : IsGap s := by
  induction s with
  | nil => exact .nil
  | cons c s ih =>
    obtain ⟨hc, hs⟩ := List.forall_mem_cons.1 h
    exact .blank hc (ih hs)

theorem syntaxDeclaration_reads {text : String} {s₁ s₂ s₃ : List Char}
    (htext : IsPlain text.toList) (h₁ : ∀ c ∈ s₁, isBlank c) (h₂ : ∀ c ∈ s₂, isBlank c)
    (h₃ : ∀ c ∈ s₃, isBlank c) (r : List Char) :
    syntaxDeclaration.Reads
      ("syntax".toList ++ (s₁ ++ '=' :: (s₂ ++ '"' :: (text.toList ++ '"' :: (s₃ ++ ';' :: r))))) ()
      (skipBlanks r) := by
  have hend : EndsName (s₁ ++ '=' :: (s₂ ++ '"' :: (text.toList ++ '"' :: (s₃ ++ ';' :: r)))) :=
    (isGap_of_forall_isBlank h₁).endsName fun _ => endsName_of_isMark rfl _
  have hword : (keyword .syntaxWord "syntax").Reads _ () _ := keyword_reads hend.atWordEnd
  have hequals := punctuation_reads '=' (s₂ ++ '"' :: (text.toList ++ '"' :: (s₃ ++ ';' :: r)))
  have hliteral : literal.Reads ('"' :: (text.toList ++ '"' :: (s₃ ++ ';' :: r))) text _ :=
    literal_reads htext
  rw [skipBlanks_append_mark h₁ rfl] at hword
  rw [skipBlanks_append_mark h₂ rfl] at hequals
  rw [skipBlanks_append_mark h₃ rfl] at hliteral
  exact .named (((hword.seqRight hequals).seqRight hliteral).seqRight (punctuation_reads ';' r))

section Alternatives

variable {later : Phrase (Option Declaration)} {s t : List Char} {value : Option Declaration}

/-- What is neither a comment nor a version statement is left to the later alternatives. -/
theorem reads_past_versions (hcomment : comment.Rejects s)
    (hversion : Text.afterPrefix "syntax".toList s = none)
    (hedition : Text.afterPrefix "edition".toList s = none) (h : later.Reads s value t) :
    ((some ∘ Declaration.comment) <$> comment
      <|> (fun _ => some Declaration.other) <$> syntaxDeclaration
      <|> (fun _ => some Declaration.other) <$> editionDeclaration <|> later).Reads s value t :=
  .orElse_right hcomment.map <|
    .orElse_right (syntaxDeclaration_rejects hversion).map <|
      .orElse_right (editionDeclaration_rejects hedition).map h

/-- And what is neither an import nor a package is left to those after them. -/
theorem reads_past_package (himport : Text.afterPrefix "import".toList s = none)
    (hpackage : Text.afterPrefix "package".toList s = none) (h : later.Reads s value t) :
    ((some ∘ Declaration.importing) <$> importDeclaration
      <|> (some ∘ Declaration.package) <$> packageDeclaration <|> later).Reads s value t :=
  .orElse_right (importDeclaration_rejects himport).map <|
    .orElse_right (packageDeclaration_rejects hpackage).map h

/-- And what is neither an option nor a message. -/
theorem reads_past_message (hoption : Text.afterPrefix "option".toList s = none)
    (hmessage : Text.afterPrefix "message".toList s = none) (h : later.Reads s value t) :
    ((fun o => some (Declaration.option o.1 o.2)) <$> optionDeclaration
      <|> (some ∘ Declaration.message) <$> messageDeclaration <|> later).Reads s value t :=
  .orElse_right (optionDeclaration_rejects hoption).map <|
    .orElse_right (messageDeclaration_rejects hmessage).map h

end Alternatives

theorem declaration_reads_of_message {name : String} {s t : List Char}
    (h : messageDeclaration.Reads ("message".toList ++ s) name t) :
    declaration.Reads ("message".toList ++ s) (some (.message name)) t :=
  reads_past_versions (comment_rejects_cons (by decide) _) rfl rfl <|
    reads_past_package rfl rfl <|
      .orElse_right (optionDeclaration_rejects rfl).map (.orElse_left h.map)

theorem declaration_reads {d : Declaration} {t : List Char} (h : d.Renders t)
    (hd : d.IsWellFormed) {r : List Char} (hline : ['/', '/'] <+: t → EndsLine r) :
    declaration.Reads (t ++ r) (some d) (skipBlanks r) := by
  cases h with
  | @comment text =>
    have hcomment := comment_reads hd hline
    rw [String.ofList_toList] at hcomment
    exact .orElse_left hcomment.map
  | version htext h₁ h₂ h₃ =>
    have hread := syntaxDeclaration_reads htext h₁ h₂ h₃ r
    simp only [List.append_assoc, List.cons_append, List.nil_append]
    exact .orElse_right (comment_rejects_cons (by decide) _).map (.orElse_left hread.map)
  | importing h₁ h₂ =>
    have hread := importDeclaration_reads h₁ h₂ hd r
    simp only [List.append_assoc, List.cons_append, List.nil_append]
    exact reads_past_versions (comment_rejects_cons (by decide) _) rfl rfl (.orElse_left hread.map)
  | package h₁ hne h₂ =>
    have hread := packageDeclaration_reads h₁ hne h₂ hd r
    simp only [List.append_assoc, List.cons_append, List.nil_append]
    exact reads_past_versions (comment_rejects_cons (by decide) _) rfl rfl <|
      .orElse_right (importDeclaration_rejects rfl).map (.orElse_left hread.map)
  | option h =>
    have hread := optionDeclaration_reads h hd.1 hd.2 r
    obtain ⟨s, rfl⟩ := h.exists_append
    exact reads_past_versions (comment_rejects_cons (by decide) _) rfl rfl <|
      reads_past_package rfl rfl (.orElse_left hread.map)
  | message h₁ hne h₂ =>
    have hbody : body ('{' :: ['}'] ++ r) = some ('{' :: ['}'], r) := body_empty r
    have hread := declaration_reads_of_message (messageDeclaration_reads h₁ hne h₂ hd hbody)
    simpa using hread
  | service h₁ hne h₂ hitems =>
    have hread := serviceDeclaration_reads h₁ hne h₂ hitems hd.1 hd.2 r
    simp only [List.append_assoc, List.cons_append, List.nil_append]
    exact reads_past_versions (comment_rejects_cons (by decide) _) rfl rfl <|
      reads_past_package rfl rfl <| reads_past_message rfl rfl (.orElse_left hread.map)

theorem declaration_front {d : Declaration} {t : List Char} (h : d.Renders t)
    (hd : d.IsWellFormed) (r : List Char) : t ≠ [] ∧ skipBlanks (t ++ r) = t ++ r := by
  cases h with
  | comment =>
    obtain ⟨s, hs⟩ := IsComment.exists_cons hd
    rw [hs]
    exact ⟨List.cons_ne_nil _ _, rfl⟩
  | option h =>
    obtain ⟨s, rfl⟩ := h.exists_append
    exact ⟨List.cons_ne_nil _ _, rfl⟩
  | version | importing | package | message | service => exact ⟨List.cons_ne_nil _ _, rfl⟩

theorem declaration_reads_empty (r : List Char) :
    declaration.Reads (';' :: r) none (skipBlanks r) := by
  have hcomment : comment.Rejects (';' :: r) := comment_rejects_cons (by decide) r
  exact reads_past_versions hcomment rfl rfl <| reads_past_package rfl rfl <|
    reads_past_message rfl rfl <| .orElse_right (serviceDeclaration_rejects rfl).map <|
      .orElse_left (punctuation_reads ';' r).map

theorem declaration_rejects_nil : declaration.Rejects [] := by
  have hcomment : comment.Rejects [] := comment_rejects fun c hc => by cases hc
  have hempty : (punctuation ';').Rejects [] := rfl
  refine hcomment.map.orElse <| (syntaxDeclaration_rejects rfl).map.orElse <|
    (editionDeclaration_rejects rfl).map.orElse <| (importDeclaration_rejects rfl).map.orElse <|
    (packageDeclaration_rejects rfl).map.orElse <| (optionDeclaration_rejects rfl).map.orElse <|
    (messageDeclaration_rejects rfl).map.orElse <| (serviceDeclaration_rejects rfl).map.orElse <|
    hempty.map.orElse opaqueToken_rejects_nil.map

theorem file_parse {ds : List Declaration} {t : List Char}
    (h : RendersAll Declaration.Renders [] ds t) (hds : ∀ d ∈ ds, d.IsWellFormed) :
    ∃ r, file.parse t = some (ds, r) := by
  obtain ⟨values, hmany, hvalues⟩ := h.readsMany
    (fun d hd t ht r hline => declaration_reads ht (hds d hd) hline)
    (fun d hd t ht r => declaration_front ht (hds d hd) r) declaration_reads_empty
    declaration_rejects_nil rfl (fun _ => rfl)
  rw [List.append_nil, List.append_nil] at hmany
  have hfile : file.Reads t (values.filterMap id) [] :=
    .named (hmany.reads.map.seqLeft .endOfInput)
  rw [hvalues] at hfile
  obtain ⟨r, hparse, -⟩ := hfile
  exact ⟨r, hparse⟩

/-! ## Texts of everything well-formed -/

theorem isGap_blank : IsGap [' '] := .blank rfl .nil

theorem exists_rendersType (type : List Char) : ∃ t, RendersType false type t :=
  ⟨_, .unary .nil .nil⟩

theorem exists_rendersOption (name value : String) : ∃ t, RendersOption name value t :=
  ⟨_, .intro isGap_blank (by simp) .nil .nil .nil⟩

theorem exists_renders_serviceItem (item : ServiceItem) : ∃ t, item.Renders t := by
  cases item with
  | comment text => exact ⟨_, .comment⟩
  | rpc signature =>
    obtain ⟨request, hrequest⟩ := exists_rendersType signature.requestType.toList
    obtain ⟨response, hresponse⟩ := exists_rendersType signature.responseType.toList
    exact ⟨_, .rpc (.intro isGap_blank (by simp) .nil hrequest .nil .nil hresponse .nil .semicolon)⟩
  | other =>
    have hname : IsDotted "a".toList := .name ⟨'a', [], rfl, rfl, by simp⟩
    have hvalue : IsPlain "".toList := fun c hc => by cases hc
    obtain ⟨t, h⟩ := exists_rendersOption "a" ""
    exact ⟨t, .option ⟨hname, hvalue⟩ h⟩

theorem exists_renders_declaration (d : Declaration) : ∃ t, d.Renders t := by
  cases d with
  | importing path => exact ⟨_, .importing .nil .nil⟩
  | package name => exact ⟨_, .package isGap_blank (by simp) .nil⟩
  | option name value =>
    obtain ⟨t, h⟩ := exists_rendersOption name value
    exact ⟨t, .option h⟩
  | comment text => exact ⟨_, .comment⟩
  | message name => exact ⟨_, .message isGap_blank (by simp) .nil⟩
  | service name items =>
    obtain ⟨t, ht, -⟩ : ∃ t, RendersAll ServiceItem.Renders ['}'] items t ∧ EndsLine (t ++ ['}']) :=
      exists_rendersAll fun item _ => exists_renders_serviceItem item
    exact ⟨_, .service isGap_blank (by simp) .nil ht⟩
  | other =>
    have htext : IsPlain "".toList := fun c hc => by cases hc
    have hnone : ∀ c ∈ ([] : List Char), isBlank c := fun c hc => by cases hc
    exact ⟨_, .version htext hnone hnone hnone⟩

end Grammar

open Grammar

/-- Declarations can be written down in many ways, and however well-formed ones are written, with
any gaps between their tokens, they are parsed back. -/
theorem parseDeclarations_rendersAll {ds : List Declaration} (hds : ∀ d ∈ ds, d.IsWellFormed) :
    (∃ t, RendersAll Declaration.Renders [] ds t) ∧
      ∀ t, RendersAll Declaration.Renders [] ds t →
        parseDeclarations (String.ofList t) = .ok ds := by
  refine ⟨?_, fun t ht => ?_⟩
  · obtain ⟨t, ht, -⟩ : ∃ t, RendersAll Declaration.Renders [] ds t ∧ EndsLine (t ++ []) :=
      exists_rendersAll fun d _ => exists_renders_declaration d
    exact ⟨t, ht⟩
  · obtain ⟨r, hparse⟩ := file_parse ht hds
    rw [parseDeclarations, String.toList_ofList, hparse]

/-- A comment up to its line end, and a service with marks and keywords in the comments of its
gaps. -/
theorem parseDeclarations_keywords_in_gaps :
    parseDeclarations "// c\nservice/*;*/S{rpc M(/*stream*/A)returns(.b.C);};" =
      .ok [.comment "// c", .service "S" [.rpc ⟨"M", "A", ".b.C"⟩]] := by
  have hname : ∀ {c : Char}, isNameStart c → IsName [c] := fun hc => ⟨_, [], rfl, hc, by simp⟩
  have htype : IsTypeName ('.' :: (['b'] ++ '.' :: ['C'])) :=
    .absolute (.dot (hname rfl) (.name (hname rfl)))
  have hwell : ∀ d ∈ [Declaration.comment "// c", .service "S" [.rpc ⟨"M", "A", ".b.C"⟩]],
      d.IsWellFormed := by
    have hcomment : IsComment ('/' :: '/' :: [' ', 'c']) := .line (by simp [isLineEnd])
    have hitem : (ServiceItem.rpc ⟨"M", "A", ".b.C"⟩).IsWellFormed :=
      ⟨hname rfl, .relative (.name (hname rfl)), htype⟩
    simp only [List.forall_mem_cons, Declaration.IsWellFormed]
    exact ⟨hcomment, ⟨hname rfl, hitem, by simp⟩, by simp⟩
  have hmarkGap : IsGap ('/' :: '*' :: ([';'] ++ '*' :: '/' :: [])) := .block (by decide) .nil
  have hwordGap : IsGap ('/' :: '*' :: ("stream".toList ++ '*' :: '/' :: [])) :=
    .block (fun h => absurd (h.subset List.mem_cons_self) (by simp)) .nil
  have hneRpc : '/' ≠ 'r' := by decide
  have hneService : '/' ≠ 's' := by decide
  have hnone : IsSeparator [] := fun c hc => by cases hc
  have hsingle : ∀ {c : Char}, isBlank c ∨ c = ';' → IsSeparator [c] := fun hc d hd => by
    rwa [List.mem_singleton.1 hd]
  have hrpc : RendersRpc false false ⟨"M", "A", ".b.C"⟩
      "rpc M(/*stream*/A)returns(.b.C);".toList :=
    .intro isGap_blank (by simp) .nil (.unary hwordGap .nil) .nil .nil (.unary .nil .nil) .nil
      .semicolon
  have hitems : RendersAll ServiceItem.Renders ['}'] [.rpc ⟨"M", "A", ".b.C"⟩]
      ([] ++ ("rpc M(/*stream*/A)returns(.b.C);".toList ++ [])) :=
    .cons hnone (ServiceItem.Renders.rpc hrpc)
      (fun h => absurd (List.cons_prefix_cons.1 h).1 hneRpc) (.nil hnone)
  have hservice : Declaration.Renders (.service "S" [.rpc ⟨"M", "A", ".b.C"⟩])
      "service/*;*/S{rpc M(/*stream*/A)returns(.b.C);}".toList :=
    .service hmarkGap (by simp) .nil hitems
  have hrest : RendersAll Declaration.Renders [] [.service "S" [.rpc ⟨"M", "A", ".b.C"⟩]]
      (['\n'] ++ ("service/*;*/S{rpc M(/*stream*/A)returns(.b.C);}".toList ++ [';'])) :=
    .cons (hsingle (.inl rfl)) hservice
      (fun h => absurd (List.cons_prefix_cons.1 h).1 hneService) (.nil (hsingle (.inr rfl)))
  have htext : RendersAll Declaration.Renders [] _ ([] ++ ("// c".toList ++ _)) :=
    .cons hnone .comment (fun _ c hc => by cases hc; rfl) hrest
  exact (parseDeclarations_rendersAll hwell).2 _ htext

end RpcCatalog
