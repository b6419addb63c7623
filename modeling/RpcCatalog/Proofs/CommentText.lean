import RpcCatalog.Comment
import RpcCatalog.Proofs.Grammar.Chunks
import RpcCatalog.Proofs.Grammar.CommentEnd
import RpcCatalog.Proofs.Text

/-!
# What comments say

The text of a comment has no white space at the ends of its lines and no empty lines at its own
ends, and decorating such a text as a documentation comment loses nothing of it.

* `IsNormal`: the form that the texts of comments have; `isNormal_trim_join` is where it comes from.
* `Grammar.comment_shape`: the two forms of comments in a file.
* `decorated`: a text as a documentation comment, each line behind an indentation and a star.
* `commentText_normal`: each comment of a file says a text in normal form, and each text in normal
  form is what its decorated form says.
-/

set_option autoImplicit false

namespace RpcCatalog

open Text

/-! ## Normal form -/

/-- No line begins or ends with white space, and neither the first nor the last line is empty,
unless the whole text is. -/
structure IsNormal (text : List Char) : Prop where
  trimmed : ∀ line ∈ splitOn '\n' text, IsTrimmed line
  first : text ≠ [] → (splitOn '\n' text).head? ≠ some []
  last : text ≠ [] → (splitOn '\n' text).getLast? ≠ some []

theorem IsNormal.isTrimmed {text : List Char} (h : IsNormal text) : IsTrimmed text := by
  by_cases hempty : text = []
  · subst hempty
    exact ⟨nofun, nofun⟩
  · have hlines := splitOn_ne_nil '\n' text
    have hjoin := join_splitOn text
    have htrimmed := h.trimmed
    have hfirst := h.first hempty
    have hlast := h.last hempty
    generalize splitOn '\n' text = lines at hlines hjoin htrimmed hfirst hlast
    rw [← hjoin]
    constructor
    · obtain ⟨line, lines, rfl⟩ := List.exists_cons_of_ne_nil hlines
      cases line with
      | nil => exact absurd rfl hfirst
      | cons c line =>
        rw [head?_join_cons]
        exact (htrimmed _ List.mem_cons_self).start
    · obtain rfl | ⟨lines, line, rfl⟩ := List.eq_nil_or_concat' lines
      · exact absurd rfl hlines
      · rw [getLast?_join_concat fun hline => hlast (by rw [hline, List.getLast?_concat])]
        exact (htrimmed _ (by simp)).stop

/-- Lines that are trimmed come to normal form as the text that they make up is trimmed. -/
theorem isNormal_trim_join {lines : List (List Char)} (htrimmed : ∀ line ∈ lines, IsTrimmed line)
    (hlines : ∀ line ∈ lines, '\n' ∉ line) : IsNormal (trim (join lines)) := by
  obtain ⟨kept, hkept, hjoin⟩ := exists_trim_join htrimmed
  have hends := isTrimmed_trim (join lines)
  rw [hjoin] at hends ⊢
  by_cases hempty : kept = []
  · subst hempty
    refine ⟨fun line hline => ?_, fun h => absurd rfl h, fun h => absurd rfl h⟩
    obtain rfl := List.mem_singleton.1 hline
    exact hends
  · have hsplit := splitOn_join (fun line hline => hlines line (hkept hline)) hempty
    refine ⟨fun line hline => ?_, fun htext hfirst => ?_, fun htext hlast => ?_⟩
    · rw [hsplit] at hline
      exact htrimmed line (hkept hline)
    · rw [hsplit] at hfirst
      obtain ⟨rest, rfl⟩ := List.head?_eq_some_iff.1 hfirst
      -- Behind an empty first line the text begins with a line feed, unless it ends there.
      cases rest with
      | nil => exact htext rfl
      | cons line rest => exact absurd (hends.start '\n' (by rw [join_cons_cons]; rfl)) (by decide)
    · rw [hsplit] at hlast
      obtain ⟨front, rfl⟩ := List.getLast?_eq_some_iff.1 hlast
      by_cases hfront : front = []
      · exact htext (by rw [hfront]; rfl)
      · exact absurd (hends.stop '\n' (by simp [join_concat hfront])) (by decide)

theorem isNormal_trim {line : List Char} (h : '\n' ∉ line) : IsNormal (trim line) := by
  have hnormal : IsNormal (trim (join [trim line])) := by
    refine isNormal_trim_join (fun line' hline' => ?_) fun line' hline' => ?_
    · obtain rfl := List.mem_singleton.1 hline'
      exact isTrimmed_trim line
    · obtain rfl := List.mem_singleton.1 hline'
      exact fun hmem => h (trim_subset line hmem)
  rwa [join_singleton, (isTrimmed_trim line).trim_eq] at hnormal

/-! ## Block comments -/

theorem dropLeading_subset (c : Char) (s : List Char) : dropLeading c s ⊆ s := by
  cases s with
  | nil => exact List.Subset.refl _
  | cons d s =>
    rw [dropLeading]
    split
    · exact List.subset_cons_self d s
    · exact List.Subset.refl _

theorem blockCommentText_isNormal (inner : List Char) : IsNormal (blockCommentText inner) := by
  refine isNormal_trim_join (fun line hline => ?_) fun line hline hmem => ?_
  · obtain ⟨raw, -, rfl⟩ := List.mem_map.1 hline
    exact isTrimmed_trim _
  · obtain ⟨raw, hraw, rfl⟩ := List.mem_map.1 hline
    have hstripped := dropLeading_subset _ _ (trim_subset _ hmem)
    exact not_mem_of_mem_splitOn hraw (trim_subset _ hstripped)

theorem commentChars_line (s : List Char) :
    commentChars ('/' :: '/' :: s) = trim (trimEnd s) := by
  have htrim : trim ('/' :: '/' :: s) = ['/', '/'] ++ trimEnd s := by
    rw [trim, trimStart_eq_self fun c hc => by cases hc; rfl, trimEnd_cons (by decide),
      trimEnd_cons (by decide)]
    rfl
  simp only [commentChars, htrim, afterPrefix_eq_some_iff.2 rfl]

theorem commentChars_block (s : List Char) :
    commentChars ('/' :: '*' :: (s ++ ['*', '/'])) = blockCommentText (dropLeading '*' s) := by
  have htrim : trim ('/' :: '*' :: (s ++ ['*', '/'])) = ['/', '*'] ++ (s ++ ['*', '/']) := by
    refine IsTrimmed.trim_eq ⟨fun c hc => by cases hc; rfl, fun c hc => ?_⟩
    rw [← List.cons_append, ← List.cons_append, List.getLast?_append] at hc
    cases hc
    decide
  have hline : afterPrefix ['/', '/'] (['/', '*'] ++ (s ++ ['*', '/'])) = none := rfl
  simp only [commentChars, htrim, hline, afterPrefix_eq_some_iff.2 rfl, Option.bind_some,
    beforeSuffix_eq_some_iff.2 rfl]

/-! ## Comments of a file -/

/-- A comment is a line behind two slashes, or a block between its markers. -/
theorem Grammar.comment_shape {text : String} {t r : List Char}
    (h : Grammar.Reading.comment text t r) :
    (∃ s, t = '/' :: '/' :: s ∧ '\n' ∉ s) ∨ ∃ s, t = '/' :: '*' :: (s ++ ['*', '/']) := by
  have hblock : ∀ {offset s}, 2 ≤ offset → t = '/' :: '*' :: s → Grammar.ClosesFirst offset t →
      ∃ s, t = '/' :: '*' :: (s ++ ['*', '/']) := by
    rintro offset s hoffset rfl ⟨front, hfront, hle, -⟩
    match front, hfront, Nat.le_trans hoffset hle with
    | [], _, hlong => exact absurd hlong (by simp)
    | [c], _, hlong => exact absurd hlong (by simp)
    | c :: d :: front, hfront, _ =>
      simp only [List.cons_append, List.cons.injEq] at hfront
      obtain ⟨-, -, rfl⟩ := hfront
      exact ⟨front, rfl⟩
  obtain ⟨-, hdoc | ⟨-, hopen | hline⟩⟩ := h
  · obtain ⟨s, hs, hcloses⟩ := Grammar.docComment_closes hdoc
    exact .inr (hblock (by decide) hs hcloses)
  · obtain ⟨s, hs⟩ := Grammar.blockComment_eq_cons hopen
    exact .inr (hblock (Nat.le_refl 2) hs (Grammar.blockComment_closes hopen))
  · obtain ⟨s, rfl⟩ := Grammar.lineComment_eq_cons hline
    have htake : (s ++ r).takeWhile (!isLineEnd ·) = s :=
      congrArg List.tail (congrArg List.tail (Prod.mk.inj (Option.some.inj hline)).1)
    refine .inl ⟨s, rfl, fun hmem => ?_⟩
    rw [← htake] at hmem
    exact absurd (List.mem_takeWhile_imp hmem) (by decide)

theorem HoldsComment.isNormal {source : String} {ds : List Declaration} {text : String}
    (hcomment : HoldsComment ds text) (h : parseDeclarations source = .ok ds) :
    IsNormal (commentText text).toList := by
  obtain ⟨r, hparse⟩ := Grammar.exists_file_parse h
  obtain ⟨front, t, back, -, hread⟩ := hcomment.exists_text (Grammar.file_decomposes hparse)
  obtain rfl := hread.1
  rw [commentText, String.toList_ofList]
  obtain ⟨s, hs, hline⟩ | ⟨s, hs⟩ := Grammar.comment_shape hread
  · rw [hs, commentChars_line]
    exact isNormal_trim fun hmem => hline ((trimEnd_isPrefix s).subset hmem)
  · rw [hs, commentChars_block]
    exact blockCommentText_isNormal _

/-! ## Decoration -/

/-- The text as a documentation comment: each line stands behind an indentation and a star. -/
def decorated (indentation text : List Char) : List Char :=
  "/**\n".toList ++
    (splitOn '\n' text).flatMap (fun line => indentation ++ " * ".toList ++ line ++ ['\n']) ++
      indentation ++ " */".toList

section Decoration

variable {indentation line : List Char}

theorem isWhiteSpace_of_indentation (h : ∀ c ∈ indentation, c = ' ' ∨ c = '\t') :
    ∀ c ∈ indentation, isWhiteSpace c := by
  intro c hc
  obtain rfl | rfl := h c hc <;> decide

theorem undecorated_blank (h : ∀ c ∈ line, isWhiteSpace c) : undecorated line = [] := by
  have hblank : trim line = [] := by
    rw [trim, ← List.append_nil line, trimStart_append h]
    rfl
  rw [undecorated, hblank]
  rfl

/-- Of a line, only the indentation and the star are taken. -/
theorem undecorated_line (h : ∀ c ∈ indentation, isWhiteSpace c) (hline : IsTrimmed line) :
    undecorated (indentation ++ " * ".toList ++ line) = line := by
  have hstart : trimStart (indentation ++ " * ".toList ++ line) = '*' :: ' ' :: line := by
    rw [List.append_assoc, trimStart_append h]
    rfl
  have htrim : trim (indentation ++ " * ".toList ++ line) = '*' :: trimEnd (' ' :: line) := by
    rw [trim, hstart, trimEnd_cons (by decide)]
  have hrest : trim (trimEnd (' ' :: line)) = line := by
    cases line with
    | nil => rfl
    | cons c line =>
      have hend : trimEnd (' ' :: c :: line) = [' '] ++ c :: line :=
        trimEnd_eq_self (by rw [List.getLast?_cons_cons]; exact hline.stop)
      rw [hend, trim, trimStart_append (List.forall_mem_singleton.2 rfl), ← trim, hline.trim_eq]
  rw [undecorated, htrim, dropLeading_cons_self, hrest]

theorem flatMap_append_eq_join (f : List Char → List Char) (lines : List (List Char))
    (last : List Char) :
    lines.flatMap (fun line => f line ++ ['\n']) ++ last = join (lines.map f ++ [last]) := by
  induction lines with
  | nil => exact (join_singleton last).symm
  | cons line lines ih =>
    rw [List.flatMap_cons, List.append_assoc, ih, List.map_cons, List.cons_append,
      join_cons _ (by simp), List.append_assoc]
    rfl

/-- What stands between the markers of a documentation comment, behind the second star, by its
lines. -/
def decoratedLines (indentation text : List Char) : List (List Char) :=
  [] :: ((splitOn '\n' text).map (indentation ++ " * ".toList ++ ·) ++ [indentation ++ [' ']])

theorem decorated_eq (indentation text : List Char) :
    decorated indentation text =
      '/' :: '*' :: (('*' :: join (decoratedLines indentation text)) ++ ['*', '/']) := by
  rw [decoratedLines, join_cons _ (by simp), ← flatMap_append_eq_join]
  -- The equation of the definition would have its literal texts evaluated.
  delta decorated
  simp

theorem feed_not_mem_decoratedLines (hindentation : ∀ c ∈ indentation, c = ' ' ∨ c = '\t')
    {text : List Char} (hline : line ∈ decoratedLines indentation text) : '\n' ∉ line := by
  have hindent : '\n' ∉ indentation := fun hmem => by
    obtain h | h := hindentation _ hmem <;> cases h
  obtain rfl | hline := List.mem_cons.1 hline
  · exact List.not_mem_nil
  · obtain hline | hline := List.mem_append.1 hline
    · obtain ⟨own, hown, rfl⟩ := List.mem_map.1 hline
      simp [hindent, not_mem_of_mem_splitOn hown]
    · obtain rfl := List.mem_singleton.1 hline
      simp [hindent]

theorem map_undecorated_decoratedLines (hwhite : ∀ c ∈ indentation, isWhiteSpace c)
    {text : List Char} (htext : IsNormal text) :
    (decoratedLines indentation text).map undecorated = [] :: (splitOn '\n' text ++ [[]]) := by
  have hlines : (splitOn '\n' text).map (undecorated ∘ (indentation ++ " * ".toList ++ ·)) =
      splitOn '\n' text := by
    refine (List.map_congr_left fun line hline => ?_).trans (List.map_id _)
    exact undecorated_line hwhite (htext.trimmed line hline)
  have hlast : undecorated (indentation ++ [' ']) = [] :=
    undecorated_blank (List.forall_mem_append.2 ⟨hwhite, List.forall_mem_singleton.2 rfl⟩)
  rw [decoratedLines, List.map_cons, List.map_append, List.map_map, hlines, List.map_singleton,
    hlast]
  rfl

theorem commentChars_decorated (hindentation : ∀ c ∈ indentation, c = ' ' ∨ c = '\t')
    {text : List Char} (htext : IsNormal text) :
    commentChars (decorated indentation text) = text := by
  have hends : join ([] :: (splitOn '\n' text ++ [[]])) = ['\n'] ++ (text ++ ['\n']) := by
    rw [join_cons _ (by simp), join_concat (splitOn_ne_nil _ _), join_splitOn]
    rfl
  rw [decorated_eq, commentChars_block, dropLeading_cons_self, blockCommentText,
    splitOn_join (fun _ => feed_not_mem_decoratedLines hindentation) (List.cons_ne_nil _ _),
    map_undecorated_decoratedLines (isWhiteSpace_of_indentation hindentation) htext, ← join,
    hends, htext.isTrimmed.trim_append (List.forall_mem_singleton.2 rfl)
      (List.forall_mem_singleton.2 rfl)]

/-- Every comment of a file, at top level or in a service, says a text in normal form. The other way
round, every text in normal form is what it says as a documentation comment, whatever its lines
begin with and however they are indented. -/
theorem commentText_normal :
    (∀ (source : String) (ds : List Declaration) (text : String),
      parseDeclarations source = .ok ds → HoldsComment ds text →
        IsNormal (commentText text).toList) ∧
    ∀ indentation text : List Char, (∀ c ∈ indentation, c = ' ' ∨ c = '\t') → IsNormal text →
      commentText (String.ofList (decorated indentation text)) = String.ofList text := by
  refine ⟨fun source ds text hparse hcomment => hcomment.isNormal hparse,
    fun indentation text hindentation htext => ?_⟩
  rw [commentText, String.toList_ofList, commentChars_decorated hindentation htext]

end Decoration

/-- A text with an empty line, whose other lines begin with what could be taken for decoration. -/
def starred : List Char := "* of a list\n\n// or /* more".toList

theorem starred_normal :
    parseDeclarations "service S \x7b /*\t* x\n *\ty */ \x7d" =
        .ok [.service "S" [.comment "/*\t* x\n *\ty */"]] ∧
      IsNormal (commentText "/*\t* x\n *\ty */").toList ∧
      IsNormal starred ∧
      commentText (String.ofList (decorated [' ', '\t'] starred)) = String.ofList starred := by
  have hparse : parseDeclarations "service S \x7b /*\t* x\n *\ty */ \x7d" =
      .ok [.service "S" [.comment "/*\t* x\n *\ty */"]] := by cbv
  have hlines : splitOn '\n' starred = ["* of a list".toList, [], "// or /* more".toList] := by
    cbv
  have hstarred : IsNormal starred := by
    refine ⟨?_, fun _ => ?_, fun _ => ?_⟩ <;> rw [hlines] <;> decide
  exact ⟨hparse,
    commentText_normal.1 _ _ _ hparse (.inr ⟨"S", _, List.mem_cons_self, List.mem_cons_self⟩),
    hstarred, commentText_normal.2 _ _ (by simp) hstarred⟩

end RpcCatalog
