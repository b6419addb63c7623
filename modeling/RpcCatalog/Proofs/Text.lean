import RpcCatalog.Text.Blank
import RpcCatalog.Text.Split

/-!
# Texts and their lines

* `Text.IsTrimmed`: a text has no white space at its ends (`isTrimmed_trim`, `IsTrimmed.trim_eq`).
* `Text.join`: lines put together to a text; `splitOn` takes them apart again (`splitOn_join`).
* `Text.exists_trim_join`: trimming what trimmed lines are put together to leaves out lines only.
-/

set_option autoImplicit false

namespace RpcCatalog.Text

/-! ## White space at the ends -/

/-- The text begins and ends with no white space. -/
structure IsTrimmed (s : List Char) : Prop where
  start : ∀ c ∈ s.head?, isWhiteSpace c = false
  stop : ∀ c ∈ s.getLast?, isWhiteSpace c = false

instance (s : List Char) : Decidable (IsTrimmed s) :=
  decidable_of_iff (s.head?.any isWhiteSpace = false ∧ s.getLast?.any isWhiteSpace = false)
    ⟨fun h => ⟨(Option.any_eq_false _ _).1 h.1, (Option.any_eq_false _ _).1 h.2⟩,
      fun h => ⟨(Option.any_eq_false _ _).2 h.start, (Option.any_eq_false _ _).2 h.stop⟩⟩

section Trim

variable {s w : List Char} {c : Char}

theorem trimStart_append (h : ∀ c ∈ w, isWhiteSpace c) (s : List Char) :
    trimStart (w ++ s) = trimStart s :=
  List.dropWhile_append_of_pos h

theorem trimStart_eq_self (h : ∀ c ∈ s.head?, isWhiteSpace c = false) : trimStart s = s := by
  cases s with
  | nil => rfl
  | cons c s => exact List.dropWhile_cons_of_neg (by simp [h c rfl])

theorem trimEnd_append (h : ∀ c ∈ w, isWhiteSpace c) (s : List Char) :
    trimEnd (s ++ w) = trimEnd s := by
  have hreverse : ∀ c ∈ w.reverse, isWhiteSpace c := fun c hc => h c (List.mem_reverse.1 hc)
  rw [trimEnd, List.reverse_append, List.dropWhile_append_of_pos hreverse, trimEnd]

theorem trimEnd_eq_self (h : ∀ c ∈ s.getLast?, isWhiteSpace c = false) : trimEnd s = s := by
  have hreverse : trimStart s.reverse = s.reverse :=
    trimStart_eq_self (by rwa [List.head?_reverse])
  rw [trimEnd, ← trimStart, hreverse, List.reverse_reverse]

theorem trimEnd_cons (h : isWhiteSpace c = false) (s : List Char) :
    trimEnd (c :: s) = c :: trimEnd s := by
  rw [trimEnd, trimEnd, List.reverse_cons, List.dropWhile_append]
  split
  · next hempty =>
    rw [List.isEmpty_iff.1 hempty, List.dropWhile_cons_of_neg (by simp [h])]
    rfl
  · rw [List.reverse_append]
    rfl

theorem IsTrimmed.trim_eq (h : IsTrimmed s) : trim s = s := by
  rw [trim, trimStart_eq_self h.start, trimEnd_eq_self h.stop]

theorem IsTrimmed.trim_append {front back : List Char} (h : IsTrimmed s)
    (hfront : ∀ c ∈ front, isWhiteSpace c) (hback : ∀ c ∈ back, isWhiteSpace c) :
    trim (front ++ (s ++ back)) = s := by
  rw [trim, trimStart_append hfront]
  cases s with
  | nil =>
    rw [List.nil_append, ← List.append_nil back, trimStart_append hback]
    rfl
  | cons c s =>
    rw [trimStart_eq_self (by simpa using h.start), trimEnd_append hback, trimEnd_eq_self h.stop]

theorem head?_trimStart (s : List Char) :
    ∀ c ∈ (trimStart s).head?, isWhiteSpace c = false := by
  intro c hc
  have hhead := List.head?_dropWhile_not isWhiteSpace s
  rw [trimStart] at hc
  rw [hc] at hhead
  simpa using hhead

theorem trimEnd_isPrefix (s : List Char) : trimEnd s <+: s := by
  rw [← List.reverse_suffix, trimEnd, List.reverse_reverse]
  exact List.dropWhile_suffix _

theorem isTrimmed_trim (s : List Char) : IsTrimmed (trim s) := by
  constructor
  · intro c hc
    obtain ⟨t, ht⟩ := trimEnd_isPrefix (trimStart s)
    refine head?_trimStart s c ?_
    rw [← ht, List.head?_append, show (trimEnd (trimStart s)).head? = some c from hc]
    rfl
  · intro c hc
    rw [trim, trimEnd, List.getLast?_reverse] at hc
    exact head?_trimStart _ c hc

theorem trim_subset (s : List Char) : trim s ⊆ s :=
  fun _ hc => (List.dropWhile_suffix _).subset ((trimEnd_isPrefix _).subset hc)

end Trim

/-! ## Lines -/

section Lines

variable {line : List Char} {lines : List (List Char)}

/-- Lines, with a line feed between each two of them. -/
def join (lines : List (List Char)) : List Char := List.intercalate ['\n'] lines

theorem join_cons_cons (line line' : List Char) (lines : List (List Char)) :
    join (line :: line' :: lines) = line ++ '\n' :: join (line' :: lines) := by
  rw [join, List.intercalate_cons_cons, List.append_assoc]
  rfl

theorem join_cons (line : List Char) (h : lines ≠ []) :
    join (line :: lines) = line ++ '\n' :: join lines := by
  obtain ⟨line', lines, rfl⟩ := List.exists_cons_of_ne_nil h
  exact join_cons_cons line line' lines

theorem join_concat (h : lines ≠ []) (line : List Char) :
    join (lines ++ [line]) = join lines ++ '\n' :: line := by
  induction lines with
  | nil => exact absurd rfl h
  | cons first lines ih =>
    cases lines with
    | nil => simp [join, List.intercalate_cons_cons]
    | cons second lines =>
      rw [List.cons_append, join_cons _ (by simp), ih (by simp), join_cons_cons,
        List.append_assoc, List.cons_append]

theorem join_singleton (line : List Char) : join [line] = line := List.intercalate_singleton

theorem head?_join_cons (c : Char) (line : List Char) (lines : List (List Char)) :
    (join ((c :: line) :: lines)).head? = some c := by
  cases lines with
  | nil => rw [join_singleton, List.head?_cons]
  | cons line' lines => rw [join_cons_cons, List.cons_append, List.head?_cons]

theorem getLast?_join_concat (hline : line ≠ []) :
    (join (lines ++ [line])).getLast? = line.getLast? := by
  cases lines with
  | nil => rw [List.nil_append, join_singleton]
  | cons first lines =>
    obtain ⟨c, line, rfl⟩ := List.exists_cons_of_ne_nil hline
    rw [join_concat (by simp), List.getLast?_append, List.getLast?_cons_cons, List.getLast?_cons]
    rfl

theorem join_splitOn (s : List Char) : join (splitOn '\n' s) = s := by
  rw [splitOn_eq]
  exact List.intercalate_splitOn '\n'

theorem splitOn_ne_nil (c : Char) (s : List Char) : splitOn c s ≠ [] := by
  rw [splitOn_eq]
  exact List.splitOn_ne_nil c s

theorem splitOn_join (h : ∀ line ∈ lines, '\n' ∉ line) (hne : lines ≠ []) :
    splitOn '\n' (join lines) = lines := by
  rw [splitOn_eq]
  exact List.splitOn_intercalate '\n' h hne

theorem not_mem_of_mem_splitOn {c : Char} {s piece : List Char} (h : piece ∈ splitOn c s) :
    c ∉ piece := by
  induction s generalizing piece with
  | nil =>
    obtain rfl := List.mem_singleton.1 h
    exact List.not_mem_nil
  | cons d s ih =>
    rw [splitOn] at h
    split at h
    · obtain rfl | h := List.mem_cons.1 h
      · exact List.not_mem_nil
      · exact ih h
    · next hne =>
      cases hsplit : splitOn c s with
      | nil => exact absurd hsplit (splitOn_ne_nil c s)
      | cons first pieces =>
        rw [hsplit] at h ih
        obtain rfl | h := List.mem_cons.1 h
        · have hfirst := ih List.mem_cons_self
          simp [Ne.symm hne, hfirst]
        · exact ih (List.mem_cons_of_mem _ h)

theorem reverse_join (lines : List (List Char)) :
    (join lines).reverse = join (lines.map List.reverse).reverse := by
  induction lines with
  | nil => rfl
  | cons line lines ih =>
    cases lines with
    | nil => simp [join]
    | cons line' lines =>
      have hsplit : ((line :: line' :: lines).map List.reverse).reverse =
          ((line' :: lines).map List.reverse).reverse ++ [line.reverse] := List.reverse_cons
      rw [hsplit, join_concat (by simp), ← ih, join_cons_cons, List.reverse_append,
        List.reverse_cons, List.append_assoc]
      rfl

/-- Empty lines in front are white space; a line that is not empty begins with none. -/
theorem trimStart_join (h : ∀ line ∈ lines, IsTrimmed line) :
    trimStart (join lines) = join (lines.dropWhile List.isEmpty) := by
  induction lines with
  | nil => rfl
  | cons line lines ih =>
    obtain ⟨hline, hlines⟩ := List.forall_mem_cons.1 h
    cases line with
    | cons c line =>
      rw [List.dropWhile_cons_of_neg (by simp)]
      exact trimStart_eq_self (by rw [head?_join_cons]; exact hline.start)
    | nil =>
      rw [List.dropWhile_cons_of_pos rfl]
      cases lines with
      | nil => rfl
      | cons line' lines =>
        rw [← ih hlines, join_cons_cons]
        exact trimStart_append (List.forall_mem_singleton.2 rfl) _

theorem exists_trim_join (h : ∀ line ∈ lines, IsTrimmed line) :
    ∃ kept, kept ⊆ lines ∧ trim (join lines) = join kept := by
  -- From behind, the lines are trimmed as well, and the empty ones come first again.
  have hbehind : ∀ line ∈ ((lines.dropWhile List.isEmpty).map List.reverse).reverse,
      IsTrimmed line := by
    intro line hline
    obtain ⟨line', hline', rfl⟩ := List.mem_map.1 (List.mem_reverse.1 hline)
    obtain ⟨hstart, hstop⟩ := h line' ((List.dropWhile_suffix _).subset hline')
    exact ⟨by rwa [List.head?_reverse], by rwa [List.getLast?_reverse]⟩
  refine ⟨((((lines.dropWhile List.isEmpty).map List.reverse).reverse.dropWhile
    List.isEmpty).map List.reverse).reverse, fun line hline => ?_, ?_⟩
  · obtain ⟨line', hline', rfl⟩ := List.mem_map.1 (List.mem_reverse.1 hline)
    have hmem := List.mem_reverse.1 ((List.dropWhile_suffix _).subset hline')
    obtain ⟨line, hkept, rfl⟩ := List.mem_map.1 hmem
    rw [List.reverse_reverse]
    exact (List.dropWhile_suffix _).subset hkept
  · rw [trim, trimStart_join h, trimEnd, ← trimStart, reverse_join, trimStart_join hbehind,
      reverse_join]

end Lines

end RpcCatalog.Text
