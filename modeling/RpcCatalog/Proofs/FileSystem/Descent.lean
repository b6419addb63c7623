import RpcCatalog.Proofs.FileSystem.Identity
import RpcCatalog.Proofs.NameMap

/-!
# Going down a tree

Where paths lead that go on from a directory by names of its entries.

* `IsEntryName`, `Node.IsTree`: the names that a directory may have entries under, and the trees
  with such names alone.
* `Node.Reaches`: what is below a node, with links left alone.
* `Node.Refuses`: which directory on a way refuses that anything is looked up in it.
* `FileSystem.exists_follow_append`: a way is followed to its end before what comes after it.
* `FileSystem.LeadsTo`: what a path leads to, however long it is; `LeadsTo.locate_descend` takes it
  on by names of entries.
-/

set_option autoImplicit false

namespace RpcCatalog

/-! ## Trees -/

theorem FileName.lt_irrefl (name : FileName) : ¬name < name := List.lt_irrefl name.bytes

/-- A name that a directory may have an entry under. -/
structure IsEntryName (name : FileName) : Prop where
  ne_empty : name ≠ ""
  ne_current : name ≠ "."
  ne_parent : name ≠ ".."
  no_slash : name.contains '/' = false
  no_zero : name.contains '\x00' = false
  size_le : name.size ≤ FileSystem.nameLimit

instance (name : FileName) : Decidable (IsEntryName name) :=
  decidable_of_iff (name ≠ "" ∧ name ≠ "." ∧ name ≠ ".." ∧ name.contains '/' = false ∧
      name.contains '\x00' = false ∧ name.size ≤ FileSystem.nameLimit)
    ⟨fun ⟨h₁, h₂, h₃, h₄, h₅, h₆⟩ => ⟨h₁, h₂, h₃, h₄, h₅, h₆⟩,
      fun ⟨h₁, h₂, h₃, h₄, h₅, h₆⟩ => ⟨h₁, h₂, h₃, h₄, h₅, h₆⟩⟩

namespace Node

/-- A tree in which each directory has its entries under names that it may have, each name once and
in increasing order. -/
inductive IsTree : Node → Prop
  | file (content : ByteArray) : IsTree (.file content)
  | special (cause : FileError) : IsTree (.special cause)
  | link (target : Path) : IsTree (.link target)
  | directory {entries : List (FileName × Node)} (barriers : Barriers)
    (sorted : entries.Pairwise (·.1 < ·.1)) (names : ∀ entry ∈ entries, IsEntryName entry.1)
    (nodes : ∀ entry ∈ entries, IsTree entry.2) : IsTree (.directory entries barriers)

theorem isTree_directory_iff {entries : List (FileName × Node)} {barriers : Barriers} :
    (directory entries barriers).IsTree ↔ entries.Pairwise (·.1 < ·.1) ∧
      (∀ entry ∈ entries, IsEntryName entry.1) ∧ ∀ entry ∈ entries, entry.2.IsTree :=
  ⟨fun | .directory _ sorted names nodes => ⟨sorted, names, nodes⟩,
    fun ⟨sorted, names, nodes⟩ => .directory barriers sorted names nodes⟩

mutual

def decideIsTree : (node : Node) → Decidable node.IsTree
  | file content => .isTrue (.file content)
  | special cause => .isTrue (.special cause)
  | link target => .isTrue (.link target)
  | directory entries _ =>
    have := decideAreTrees entries
    decidable_of_iff _ isTree_directory_iff.symm

def decideAreTrees : (entries : List (FileName × Node)) →
    Decidable (∀ entry ∈ entries, entry.2.IsTree)
  | [] => .isTrue fun _ h => nomatch h
  | (_, node) :: rest =>
    have := decideIsTree node
    have := decideAreTrees rest
    decidable_of_iff (node.IsTree ∧ ∀ entry ∈ rest, entry.2.IsTree)
      ⟨fun h => List.forall_mem_cons.2 h, fun h => List.forall_mem_cons.1 h⟩

end

instance (node : Node) : Decidable node.IsTree := decideIsTree node

theorem IsTree.findIn_of_mem {entries : List (FileName × Node)} {barriers : Barriers}
    (h : (Node.directory entries barriers).IsTree) {name : FileName} {node : Node}
    (hmem : (name, node) ∈ entries) : NameMap.findIn name entries = some node := by
  obtain ⟨sorted, -, -⟩ := isTree_directory_iff.1 h
  refine NameMap.findIn_of_mem (sorted.imp ?_) hmem
  intro a b hlt heq
  exact FileName.lt_irrefl b.1 (heq ▸ hlt)

/-- A node is below another, at the end of a way of names. Links are left alone. -/
inductive Reaches : Node → List FileName → Node → Prop
  | here {node : Node} : Reaches node [] node
  | deeper {entries : List (FileName × Node)} {barriers : Barriers} {name : FileName}
    {inner node : Node} {way : List FileName} (hmem : (name, inner) ∈ entries)
    (hinner : Reaches inner way node) : Reaches (.directory entries barriers) (name :: way) node

/-- A directory on the way refuses with an error that anything is looked up in it, and those before
it do not. -/
inductive Refuses : Node → List FileName → FileError → Prop
  | here {entries : List (FileName × Node)} {barriers : Barriers} {name : FileName}
    {way : List FileName} {e : FileError} (hpassage : barriers.passage = some e) :
    Refuses (.directory entries barriers) (name :: way) e
  | deeper {entries : List (FileName × Node)} {barriers : Barriers} {name : FileName}
    {inner : Node} {way : List FileName} {e : FileError} (hpassage : barriers.passage = none)
    (hmem : (name, inner) ∈ entries) (hinner : Refuses inner way e) :
    Refuses (.directory entries barriers) (name :: way) e

variable {top node : Node} {way : List FileName}

theorem Reaches.isEntryName (h : top.Reaches way node) (htree : top.IsTree) :
    ∀ name ∈ way, IsEntryName name := by
  induction h with
  | here => exact fun _ hmem => nomatch hmem
  | deeper hmem _ ih =>
    obtain ⟨-, names, nodes⟩ := isTree_directory_iff.1 htree
    exact List.forall_mem_cons.2 ⟨names _ hmem, ih (nodes _ hmem)⟩

/-- A link is the end of every way to it. -/
theorem Reaches.of_link {target : Path} (h : (link target).Reaches way node) :
    way = [] ∧ node = .link target := by
  cases h
  exact ⟨rfl, rfl⟩

theorem refuses_cons_iff {entries : List (FileName × Node)} {barriers : Barriers} {name : FileName}
    {inner : Node} {e : FileError} (htree : (directory entries barriers).IsTree)
    (hpassage : barriers.passage = none) (hmem : (name, inner) ∈ entries) :
    (directory entries barriers).Refuses (name :: way) e ↔ inner.Refuses way e := by
  constructor
  · intro h
    cases h with
    | here hsome =>
      rw [hpassage] at hsome
      cases hsome
    | deeper _ hmem' hinner =>
      have hsame := (htree.findIn_of_mem hmem).symm.trans (htree.findIn_of_mem hmem')
      obtain rfl := Option.some.inj hsame
      exact hinner
  · exact .deeper hpassage hmem

/-- The error of a way is that of the first directory on it that refuses. -/
theorem Refuses.unique {e e' : FileError} (htree : top.IsTree) (h : top.Refuses way e)
    (h' : top.Refuses way e') : e = e' := by
  induction h with
  | here hpassage =>
    cases h' with
    | here hpassage' => exact Option.some.inj (hpassage.symm.trans hpassage')
    | deeper hpassage' _ _ =>
      rw [hpassage] at hpassage'
      cases hpassage'
  | deeper hpassage hmem _ ih =>
    obtain ⟨-, -, nodes⟩ := isTree_directory_iff.1 htree
    exact ih (nodes _ hmem) ((refuses_cons_iff htree hpassage hmem).1 h')

end Node

theorem FileSystem.HasPlace.isTree {files : FileSystem} (htree : files.root.IsTree) {place : Place}
    (h : files.HasPlace place) : (files.nodeAt place).IsTree := by
  induction place with
  | nil => exact htree
  | cons entry way ih =>
    obtain ⟨⟨entries, barriers, hdirectory, hfind⟩, hway⟩ := h
    have hinner := ih hway
    rw [hdirectory, Node.isTree_directory_iff] at hinner
    exact hinner.2.2 _ (NameMap.mem_of_findIn hfind)

/-! ## Paths that go on by names -/

/-- The path that goes on from a path by a way of names. -/
def Path.descend (path : Path) (way : List FileName) : Path := way.foldl Path.child path

@[simp] theorem Path.descend_nil (path : Path) : path.descend [] = path := rfl

@[simp] theorem Path.descend_cons (path : Path) (name : FileName) (way : List FileName) :
    path.descend (name :: way) = (path.child name).descend way := rfl

namespace Path

variable {base : Path} {name : FileName} {way : List FileName}

theorem isEmpty_iff {path : Path} :
    path.isEmpty ↔ path.segments = [] ∨ path.segments = [.text ""] := by
  unfold isEmpty
  split
  · next h => simp [h]
  · next h => simp [h]
  · next hnil hsingle =>
    refine iff_of_false (by simp) ?_
    rintro (h | h)
    · exact hnil h
    · exact hsingle _ h

theorem isAbsolute_iff {path : Path} :
    path.isAbsolute ↔ ∃ second rest, path.segments = .text "" :: second :: rest := by
  unfold isAbsolute
  split
  · next first second rest h => simp [h]
  · next hshort =>
    refine iff_of_false (by simp) ?_
    rintro ⟨second, rest, h⟩
    exact hshort _ _ _ h

/-- A path may have an empty segment behind the ones that stay when it goes on. -/
theorem segments_eq_stem (path : Path) :
    path.segments = path.stem ∨ path.segments = path.stem ++ [.text ""] := by
  unfold stem
  split
  · next h =>
    obtain ⟨front, hfront⟩ := List.getLast?_eq_some_iff.1 h
    exact .inr (by simp [hfront])
  · exact .inl rfl

theorem stem_eq_of_concat {path : Path} {front : List FileName}
    (h : path.segments = front ++ [name]) (hname : name ≠ "") : path.stem = front ++ [name] := by
  unfold stem
  rw [if_neg, h]
  rw [h, List.getLast?_concat]
  exact fun e => hname (Option.some.inj e)

theorem segments_child (hbase : base.isEmpty = false) (name : FileName) :
    (base.child name).segments = base.stem ++ [name] := by
  have hcond : (isAbsolute ⟨[name]⟩ || base.isEmpty) = false := by
    rw [hbase, Bool.or_false]
    rfl
  rw [child, join, hcond, cond_false]

theorem isEmpty_child (hbase : base.isEmpty = false) (hname : name ≠ "") :
    (base.child name).isEmpty = false := by
  rw [Bool.eq_false_iff, ne_eq, isEmpty_iff, segments_child hbase]
  rintro (h | h)
  · simp at h
  · exact hname (List.append_singleton_inj.1 (h.trans (List.nil_append _).symm)).2

theorem isAbsolute_child (hbase : base.isEmpty = false) (name : FileName) :
    (base.child name).isAbsolute = base.isAbsolute := by
  rw [Bool.eq_iff_iff, isAbsolute_iff, isAbsolute_iff, segments_child hbase]
  have hempty := mt isEmpty_iff.2 (Bool.eq_false_iff.1 hbase)
  rw [not_or] at hempty
  obtain h | h := base.segments_eq_stem <;> rw [h] at hempty ⊢
  · match hstem : base.stem with
    | [] => exact absurd hstem hempty.1
    | [first] =>
      rw [hstem] at hempty
      refine iff_of_false (fun ⟨_, _, h⟩ => hempty.2 ?_) fun ⟨_, _, h⟩ => by cases h
      cases h
      rfl
    | first :: second :: rest => simp
  · match hstem : base.stem with
    | [] =>
      rw [hstem] at hempty
      exact absurd rfl hempty.2
    | [first] => simp
    | first :: second :: rest => simp

theorem segments_descend (hbase : base.isEmpty = false) (hway : ∀ name ∈ way, name ≠ "")
    (hne : way ≠ []) : (base.descend way).segments = base.stem ++ way := by
  induction way generalizing base with
  | nil => exact absurd rfl hne
  | cons name way ih =>
    obtain ⟨hname, hway⟩ := List.forall_mem_cons.1 hway
    rw [descend_cons]
    cases way with
    | nil => exact segments_child hbase name
    | cons next way =>
      rw [ih (isEmpty_child hbase hname) hway (List.cons_ne_nil _ _),
        stem_eq_of_concat (segments_child hbase name) hname, List.append_assoc]
      rfl

theorem isEmpty_descend (hbase : base.isEmpty = false) (hway : ∀ name ∈ way, name ≠ "") :
    (base.descend way).isEmpty = false := by
  induction way generalizing base with
  | nil => exact hbase
  | cons name way ih =>
    obtain ⟨hname, hway⟩ := List.forall_mem_cons.1 hway
    exact ih (isEmpty_child hbase hname) hway

theorem isAbsolute_descend (hbase : base.isEmpty = false) (hway : ∀ name ∈ way, name ≠ "") :
    (base.descend way).isAbsolute = base.isAbsolute := by
  induction way generalizing base with
  | nil => rfl
  | cons name way ih =>
    obtain ⟨hname, hway⟩ := List.forall_mem_cons.1 hway
    rw [descend_cons, ih (isEmpty_child hbase hname) hway, isAbsolute_child hbase]

end Path

/-! ## Following ways -/

namespace FileSystem

variable {files : FileSystem}

/-- What comes after a way is followed from where the way leads, if it leads anywhere. -/
theorem exists_follow_append (files : FileSystem) (links : Nat) (place : Place)
    (way : List FileName) :
    (∃ e, ∀ rest, files.follow links place (way ++ rest) = .error e) ∨
      ∃ links' place', ∀ rest,
        files.follow links place (way ++ rest) = files.follow links' place' rest := by
  fun_induction files.follow links place way with
  | case1 links place => exact .inr ⟨links, place, fun rest => rfl⟩
  | case2 links place rest entries barriers hnode ih =>
    simpa only [List.cons_append, follow, hnode, if_true] using ih
  | case3 links place segment rest entries barriers hnode hempty e hpassage =>
    exact .inl ⟨e, fun rest' => by
      simp only [List.cons_append, follow, hnode, hempty, hpassage, if_false]⟩
  | case4 links place rest entries barriers hnode hempty hpassage ih =>
    simpa only [List.cons_append, follow, hnode, hempty, hpassage, if_true, if_false] using ih
  | case5 links place rest entries barriers hnode hempty hpassage hcurrent ih =>
    simpa only [List.cons_append, follow, hnode, hempty, hpassage, hcurrent, if_true, if_false]
      using ih
  | case6 links place segment rest entries barriers hnode hempty hpassage hcurrent hparent hlong =>
    exact .inl ⟨.nameTooLong, fun rest' => by
      simp only [List.cons_append, follow, hnode, hempty, hpassage, hcurrent, hparent, hlong,
        if_true, if_false]⟩
  | case7 links place segment rest entries barriers hnode hempty hpassage hcurrent hparent hlong
      hfind =>
    exact .inl ⟨.notFound, fun rest' => by
      simp only [List.cons_append, follow, hnode, hempty, hpassage, hcurrent, hparent, hlong,
        hfind, if_false]⟩
  | case8 place segment rest entries barriers hnode hempty hpassage hcurrent hparent hlong target
      hfind =>
    exact .inl ⟨.tooManyLinks, fun rest' => by
      simp only [List.cons_append, follow, hnode, hempty, hpassage, hcurrent, hparent, hlong,
        hfind, if_false]⟩
  | case9 place segment rest entries barriers hnode hempty hpassage hcurrent hparent hlong target
      hfind links' ih =>
    simpa only [List.cons_append, follow, hnode, hempty, hpassage, hcurrent, hparent, hlong,
      hfind, if_false, List.append_assoc] using ih
  | case10 links place segment rest entries barriers hnode hempty hpassage hcurrent hparent hlong
      node hlink hfind ih =>
    simpa only [List.cons_append, follow, hnode, hempty, hpassage, hcurrent, hparent, hlong,
      hfind, if_false] using ih
  | case11 links place segment rest hnode =>
    exact .inl ⟨.notADirectory, fun rest' => by
      rw [List.cons_append, follow]
      split
      · next entries barriers hdirectory => exact absurd hdirectory (hnode entries barriers)
      · rfl⟩

/-- A way of names is followed to its end, unless a directory on it refuses. -/
theorem follow_of_reaches {top node : Node} {way : List FileName} (h : top.Reaches way node)
    (htree : top.IsTree) (hlink : ∀ target, node ≠ .link target) (links : Nat) {place : Place}
    (hplace : files.nodeAt place = top) :
    (∃ e, top.Refuses way e ∧ files.follow links place way = .error e) ∨
      (∀ e, ¬top.Refuses way e) ∧
        ∃ place', files.follow links place way = .ok place' ∧ files.nodeAt place' = node := by
  induction h generalizing place with
  | here => exact .inr ⟨fun _ h => (nomatch h), place, follow.eq_1 .., hplace⟩
  | @deeper entries barriers name inner node way hmem hinner ih =>
    obtain ⟨-, names, nodes⟩ := Node.isTree_directory_iff.1 htree
    have hname := names _ hmem
    have hfind := htree.findIn_of_mem hmem
    rw [follow, hplace]
    dsimp only
    rw [if_neg hname.ne_empty]
    cases hpassage : barriers.passage with
    | some e => exact .inl ⟨e, .here hpassage, rfl⟩
    | none =>
      dsimp only
      rw [if_neg hname.ne_current, if_neg hname.ne_parent, if_neg (Nat.not_lt.2 hname.size_le),
        hfind]
      simp only [Node.refuses_cons_iff htree hpassage hmem]
      cases inner with
      | link target =>
        obtain ⟨-, rfl⟩ := hinner.of_link
        exact absurd rfl (hlink target)
      | file _ => exact ih (nodes _ hmem) hlink rfl
      | special _ => exact ih (nodes _ hmem) hlink rfl
      | directory _ _ => exact ih (nodes _ hmem) hlink rfl

/-- The path leads to the node, however long it is. -/
def LeadsTo (files : FileSystem) (path : Path) (node : Node) : Prop :=
  ∃ place, files.locate path = .ok place ∧ files.nodeAt place = node

theorem find_eq_ok_iff {path : Path} {node : Node} :
    files.find path = .ok node ↔ files.LeadsTo path node ∧ path.size ≤ pathLimit := by
  constructor
  · intro h
    refine ⟨locate_of_find h, Nat.le_of_not_lt fun hlong => ?_⟩
    rw [find, if_pos hlong] at h
    cases hcheck : checkPath path <;> rw [hcheck] at h <;> cases h
  · rintro ⟨⟨place, hlocate, rfl⟩, hsize⟩
    obtain ⟨hcheck, -⟩ := locate_eq_ok_iff.1 hlocate
    rw [find, if_neg (Nat.not_lt.2 hsize), hlocate, hcheck]
    rfl

theorem isFile_iff {path : Path} :
    files.isFile path ↔
      (∃ content, files.LeadsTo path (.file content)) ∧ path.size ≤ pathLimit := by
  constructor
  · intro h
    unfold isFile at h
    split at h
    · next node hfind =>
      cases node with
      | file content =>
        obtain ⟨hleads, hsize⟩ := find_eq_ok_iff.1 hfind
        exact ⟨⟨content, hleads⟩, hsize⟩
      | special _ => cases h
      | link _ => cases h
      | directory _ _ => cases h
    · cases h
  · rintro ⟨⟨content, hleads⟩, hsize⟩
    rw [isFile, find_eq_ok_iff.2 ⟨hleads, hsize⟩]
    rfl

theorem LeadsTo.unique {path : Path} {node node' : Node} (h : files.LeadsTo path node)
    (h' : files.LeadsTo path node') : node = node' := by
  obtain ⟨place, hplace, rfl⟩ := h
  obtain ⟨place', hplace', rfl⟩ := h'
  rw [hplace] at hplace'
  rw [Except.ok.inj hplace']

theorem checkPath_eq_ok_iff {path : Path} :
    checkPath path = .ok () ↔
      (∀ segment ∈ path.segments, segment.contains '\x00' = false) ∧ path.isEmpty = false := by
  have hzero : (∀ segment ∈ path.segments, segment.contains '\x00' = false) ↔
      path.segments.any (·.contains '\x00') = false := by
    simp
  rw [checkPath, hzero]
  cases path.segments.any (·.contains '\x00') <;> cases path.isEmpty <;> simp

theorem LeadsTo.isEmpty {path : Path} {node : Node} (h : files.LeadsTo path node) :
    path.isEmpty = false := by
  obtain ⟨place, hplace, -⟩ := h
  exact (checkPath_eq_ok_iff.1 (locate_eq_ok_iff.1 hplace).1).2

/-- A path that goes on by names is as good as the one before it. -/
theorem checkPath_descend {base : Path} (hbase : checkPath base = .ok ()) {way : List FileName}
    (hway : ∀ name ∈ way, IsEntryName name) : checkPath (base.descend way) = .ok () := by
  obtain ⟨hzero, hempty⟩ := checkPath_eq_ok_iff.1 hbase
  have hnames := fun name hname => (hway name hname).ne_empty
  refine checkPath_eq_ok_iff.2 ⟨fun segment hsegment => ?_, Path.isEmpty_descend hempty hnames⟩
  cases way with
  | nil => exact hzero segment hsegment
  | cons name way =>
    rw [Path.segments_descend hempty hnames (List.cons_ne_nil _ _)] at hsegment
    obtain hstem | hmem := List.mem_append.1 hsegment
    · refine hzero segment ?_
      obtain h | h := base.segments_eq_stem <;> rw [h]
      · exact hstem
      · exact List.mem_append_left _ hstem
    · exact (hway segment hmem).no_zero

/-- Names are followed from the place that a path leads to. -/
theorem LeadsTo.locate_descend {base : Path} {node : Node} (h : files.LeadsTo base node) :
    ∃ links place, files.nodeAt place = node ∧
      ∀ way : List FileName, (∀ name ∈ way, IsEntryName name) →
        files.locate (base.descend way) = files.follow links place way := by
  obtain ⟨place, hlocate, hnode⟩ := h
  obtain ⟨hcheck, start, hstart, hfollow⟩ := locate_eq_ok_iff.1 hlocate
  obtain ⟨-, hempty⟩ := checkPath_eq_ok_iff.1 hcheck
  obtain ⟨e, hfails⟩ | ⟨links, mid, hfollows⟩ :=
    exists_follow_append files linkLimit start base.stem
  · obtain h | h := base.segments_eq_stem
    · rw [h, ← List.append_nil base.stem, hfails] at hfollow
      cases hfollow
    · rw [h, hfails] at hfollow
      cases hfollow
  · have hmid : mid = place := by
      obtain h | h := base.segments_eq_stem
      · rw [h, ← List.append_nil base.stem, hfollows, follow] at hfollow
        exact Except.ok.inj hfollow
      · rw [h, hfollows, follow] at hfollow
        split at hfollow
        · rw [if_pos rfl, follow] at hfollow
          exact Except.ok.inj hfollow
        · cases hfollow
    subst hmid
    refine ⟨links, mid, hnode, fun way hway => ?_⟩
    have hnames := fun name hname => (hway name hname).ne_empty
    cases way with
    | nil =>
      rw [Path.descend_nil, hlocate, follow]
    | cons name way =>
      have hstart' : files.start (base.descend (name :: way)) = .ok start := by
        rw [FileSystem.start, Path.isAbsolute_descend hempty hnames]
        exact hstart
      rw [locate, checkPath_descend hcheck hway, hstart',
        Path.segments_descend hempty hnames (List.cons_ne_nil _ _)]
      exact hfollows _

/-- What is below a directory is at the path that goes on by the way to it, unless it is a link or a
directory on the way refuses. -/
theorem LeadsTo.descend {base : Path} {top : Node} (h : files.LeadsTo base top)
    (htree : top.IsTree) {way : List FileName} {node : Node} (hreaches : top.Reaches way node)
    (hlink : ∀ target, node ≠ .link target) :
    (∃ e, top.Refuses way e ∧ files.locate (base.descend way) = .error e) ∨
      (∀ e, ¬top.Refuses way e) ∧ files.LeadsTo (base.descend way) node := by
  obtain ⟨links, place, hplace, hlocate⟩ := h.locate_descend
  rw [LeadsTo, hlocate way (hreaches.isEntryName htree)]
  exact follow_of_reaches hreaches htree hlink links hplace

end FileSystem

end RpcCatalog
