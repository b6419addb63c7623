import RpcCatalog.Proofs.Grammar.Decomposition

/-!
# Where comments end

A block comment ends at the first closing marker after its opening one, unless the two share a
character.

* `ClosesFirst`: a text ends at its first closing marker from an offset on.
* `HoldsComment`: the comments of a file, at top level and in services.
* `parseDeclarations_comment_closes`: which comments end at the first marker, and what the others
  run into.
-/

set_option autoImplicit false

namespace RpcCatalog

namespace Grammar

/-! ## Closing markers -/

/-- The text ends with a closing marker, the first one at or after an offset. -/
def ClosesFirst (offset : Nat) (t : List Char) : Prop :=
  ∃ front, t = front ++ ['*', '/'] ∧ offset ≤ front.length ∧
    ∀ i, offset ≤ i → i < front.length → ¬ ['*', '/'] <+: t.drop i

section ClosesFirst

variable {offset : Nat} {t : List Char}

theorem ClosesFirst.cons (c : Char) (h : ClosesFirst offset t) :
    ClosesFirst (offset + 1) (c :: t) := by
  obtain ⟨front, rfl, hle, hfirst⟩ := h
  refine ⟨c :: front, rfl, Nat.succ_le_succ hle, fun i hi hlt => ?_⟩
  cases i with
  | zero => exact absurd hi (Nat.not_succ_le_zero offset)
  | succ i => exact hfirst i (Nat.le_of_succ_le_succ hi) (Nat.lt_of_succ_lt_succ hlt)

/-- The offset may be one less exactly if no marker stands there. -/
theorem ClosesFirst.pred_iff (h : ClosesFirst (offset + 1) t) :
    ClosesFirst offset t ↔ ¬ ['*', '/'] <+: t.drop offset := by
  obtain ⟨front, rfl, hle, hfirst⟩ := h
  constructor
  · rintro ⟨front', happend, -, hfirst'⟩
    obtain rfl := List.append_cancel_right happend
    exact hfirst' offset (Nat.le_refl offset) hle
  · intro hnot
    refine ⟨front, rfl, Nat.le_of_succ_le hle, fun i hi hlt => ?_⟩
    obtain rfl | hi := Nat.eq_or_lt_of_le hi
    · exact hnot
    · exact hfirst i hi hlt

theorem throughCommentEnd_closes {s r : List Char} (h : throughCommentEnd s = some (t, r)) :
    ClosesFirst 0 t := by
  fun_induction throughCommentEnd s generalizing t with
  | case1 => cases h
  | case2 =>
    cases h
    exact ⟨[], rfl, Nat.le_refl 0, fun i _ hi => absurd hi (Nat.not_lt_zero i)⟩
  | case3 c s hopen ih =>
    obtain ⟨⟨t', r'⟩, ht, hr⟩ := Option.map_eq_some_iff.1 h
    cases hr
    -- A marker that begins with `c` would have been the second case.
    refine ((ih ht).cons c).pred_iff.2 fun hmarker => ?_
    obtain ⟨rfl, rest, rfl⟩ := List.cons_prefix_cons.1 hmarker
    obtain ⟨rfl, -⟩ := throughCommentEnd_splits ht
    exact hopen _ rfl rfl

theorem not_infix_of_throughCommentEnd {s : List Char} (h : throughCommentEnd s = none) :
    ¬ ['*', '/'] <:+: s := by
  fun_induction throughCommentEnd s with
  | case1 => simp
  | case2 => cases h
  | case3 c s hopen ih =>
    intro hwithin
    obtain hmarker | hwithin := List.infix_cons_iff.1 hwithin
    · obtain ⟨rfl, rest, rfl⟩ := List.cons_prefix_cons.1 hmarker
      exact hopen rest rfl rfl
    · exact ih (Option.map_eq_none_iff.1 h) hwithin

end ClosesFirst

/-! ## Comments -/

/-- The shortest block comment, in which one star is enough for both markers of a documentation
comment. -/
def emptyComment : List Char := ['/', '*', '*', '/']

theorem blockComment_closes {s t r : List Char} (h : blockComment s = some (t, r)) :
    ClosesFirst 2 t := by
  unfold blockComment at h
  split at h
  · obtain ⟨⟨t', r'⟩, ht, hr⟩ := Option.map_eq_some_iff.1 h
    cases hr
    exact ((throughCommentEnd_closes ht).cons '*').cons '/'
  · cases h

theorem docComment_closes {s t r : List Char} (h : docComment s = some (t, r)) :
    ∃ u, t = '/' :: '*' :: u ∧ ClosesFirst 3 t := by
  unfold docComment at h
  split at h
  · obtain ⟨⟨t', r'⟩, ht, hr⟩ := Option.map_eq_some_iff.1 h
    cases hr
    exact ⟨_, rfl, (((throughCommentEnd_closes ht).cons '*').cons '*').cons '/'⟩
  · cases h

/-- A marker right after the opening one is where a block comment ends. -/
theorem eq_emptyComment {t r : List Char} (h : Takes blockComment t r)
    (hbegins : emptyComment <+: t ++ r) : t = emptyComment := by
  obtain ⟨u, hu⟩ := hbegins
  rw [Takes, ← hu] at h
  cases h
  rfl

/-- A block comment ends at the first marker after its opening one, unless it goes on after an empty
comment. Then it ends at the first marker after the empty comment. -/
theorem comment_closes {text : String} {t r : List Char} (h : Reading.comment text t r)
    (hopen : ['/', '*'] <+: t) :
    (ClosesFirst 2 t ↔ ¬ emptyComment <+: t ∨ t = emptyComment) ∧
      (emptyComment <+: t → t = emptyComment ∧ ¬ ['*', '/'] <:+: r ∨ ClosesFirst 3 t) := by
  obtain ⟨-, hdoc | ⟨hdoc, hblock | hline⟩⟩ := h
  · obtain ⟨u, rfl, hcloses⟩ := docComment_closes hdoc
    -- The markers of a documentation comment share no star, so it is longer than an empty comment.
    have hlong : '/' :: '*' :: u ≠ emptyComment := by
      intro hempty
      obtain ⟨front, hfront, hle, -⟩ := hcloses
      have hlength := congrArg List.length hfront
      rw [hempty, List.length_append] at hlength
      simp only [emptyComment, List.length_cons, List.length_nil] at hlength
      omega
    refine ⟨?_, fun _ => .inr hcloses⟩
    rw [or_iff_left hlong, hcloses.pred_iff]
    simp [emptyComment, List.cons_prefix_cons]
  · have hcloses := blockComment_closes hblock
    have hempty : emptyComment <+: t → t = emptyComment := fun hbegins =>
      eq_emptyComment hblock (hbegins.trans (List.prefix_append t r))
    refine ⟨⟨fun _ => ?_, fun _ => hcloses⟩, fun hbegins => .inl ⟨hempty hbegins, ?_⟩⟩
    · exact (Classical.em (emptyComment <+: t)).symm.imp_right hempty
    · obtain rfl := hempty hbegins
      have hnone : throughCommentEnd ('/' :: r) = none := Option.map_eq_none_iff.1 hdoc
      exact fun hwithin =>
        not_infix_of_throughCommentEnd hnone (hwithin.trans (List.suffix_cons '/' r).isInfix)
  · unfold Takes lineComment at hline
    split at hline
    · next heq =>
      obtain ⟨u, rfl⟩ := hopen
      cases heq
    · cases hline

end Grammar

open Grammar

/-- The comment is a declaration or an item of a service. -/
def HoldsComment (ds : List Declaration) (text : String) : Prop :=
  .comment text ∈ ds ∨ ∃ name items, .service name items ∈ ds ∧ .comment text ∈ items

/-- Where a comment stands. -/
theorem HoldsComment.exists_text {ds : List Declaration} {text : String} {s : List Char}
    (h : HoldsComment ds text) (hs : Decomposes Declaration.ReadFrom ds s []) :
    ∃ front t back, s = front ++ (t ++ back) ∧ Reading.comment text t back := by
  obtain hmem | ⟨name, items, hmem, hitem⟩ := h
  · obtain ⟨front, t, back, rfl, hread⟩ := hs.exists_of_mem hmem
    cases hread with
    | comment h =>
      have hread : Reading.comment text t (back ++ []) := h.inTurn
      exact ⟨front, t, back, rfl, by rwa [List.append_nil] at hread⟩
  · obtain ⟨front, _, back, rfl, hread⟩ := hs.exists_of_mem hmem
    cases hread with
    | @service _ _ head inner _ _ _ hitems =>
      obtain ⟨front', t, back', rfl, hread⟩ := hitems.exists_of_mem hitem
      cases hread with
      | comment h =>
        have hread : Reading.comment text t (back' ++ '}' :: (back ++ [])) := h.inTurn
        rw [List.append_nil] at hread
        exact ⟨front ++ (head ++ front'), t, back' ++ '}' :: back, by simp, hread⟩

/-- A block comment that is parsed ends at the first closing marker after its opening one exactly if
it does not go on after an empty comment. One that goes on ends at the next marker, over whatever
stands in between; there has to be one. -/
theorem parseDeclarations_comment_closes {source : String} {ds : List Declaration} {text : String}
    (h : parseDeclarations source = .ok ds) (hcomment : HoldsComment ds text)
    (hopen : ['/', '*'] <+: text.toList) :
    ∃ front back, source.toList = front ++ (text.toList ++ back) ∧
      (ClosesFirst 2 text.toList ↔
        ¬ emptyComment <+: text.toList ∨ text.toList = emptyComment) ∧
      (emptyComment <+: text.toList →
        text.toList = emptyComment ∧ ¬ ['*', '/'] <:+: back ∨ ClosesFirst 3 text.toList) := by
  obtain ⟨r, hparse⟩ := exists_file_parse h
  obtain ⟨front, t, back, hsource, hread⟩ := hcomment.exists_text (file_decomposes hparse)
  obtain rfl := hread.1
  exact ⟨front, back, hsource, comment_closes hread hopen⟩

/-- A comment in a service, before a declaration and another comment. -/
theorem served_comment_closes :
    parseDeclarations "service S \x7b /** x */ rpc M(A) returns(B); /* y */ \x7d" =
        .ok [.service "S" [.comment "/** x */", .rpc ⟨"M", "A", "B"⟩, .comment "/* y */"]] ∧
      ClosesFirst 2 "/** x */".toList := by
  have h : parseDeclarations "service S \x7b /** x */ rpc M(A) returns(B); /* y */ \x7d" =
      .ok [.service "S" [.comment "/** x */", .rpc ⟨"M", "A", "B"⟩, .comment "/* y */"]] := by cbv
  obtain ⟨_, _, -, hiff, -⟩ := parseDeclarations_comment_closes h
    (.inr ⟨"S", _, List.mem_cons_self, List.mem_cons_self⟩) (by decide)
  exact ⟨h, hiff.2 (.inl (by decide))⟩

/-- A message that stands between an empty comment and another one is lost in a single comment. -/
theorem message_lost_in_comment :
    parseDeclarations "/**/ message A \x7b\x7d /** x */" =
        .ok [.comment "/**/ message A \x7b\x7d /** x */"] ∧
      ['/', '*'] <+: "/**/ message A \x7b\x7d /** x */".toList ∧
      ¬ ClosesFirst 2 "/**/ message A \x7b\x7d /** x */".toList := by
  refine ⟨by cbv, by decide, ?_⟩
  rintro ⟨front, hfront, -, hfirst⟩
  have hlength := congrArg List.length hfront
  rw [List.length_append] at hlength
  refine hfirst 2 (Nat.le_refl 2) ?_ (by decide)
  have htext : "/**/ message A \x7b\x7d /** x */".toList.length = 26 := by decide
  simp only [htext, List.length_cons, List.length_nil] at hlength
  omega

end RpcCatalog
