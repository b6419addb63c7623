import Mathlib
import RpcCatalog.Proofs.FileSystem.PathOrder
import RpcCatalog.Scan

/-!
# What a scan finds

* `Node.mem_walk_iff`: a walk meets what is below a node, at the paths that go on from the node's.
* `Node.pairwise_walk`: it meets them in the order of their paths.
* `FileSystem.IsBarred`: the directories that cannot be opened, each with the reason.
* `FileSystem.Finds`: the files below a directory that a scan is to find.
* `FileSystem.scan_finds`: a scan finds these files, each once and in the order of their paths,
  unless there is a directory that cannot be opened.
-/

set_option autoImplicit false

namespace RpcCatalog

namespace Node

variable {top node : Node} {entries : List (FileName × Node)} {barriers : Barriers}
  {way : List FileName} {name : FileName} {path : Path} {visit : Visit}

/-! ## What a walk meets -/

/-- What a walk from a path meets at the end of a way. -/
def visitAt (path : Path) (way : List FileName) (node : Node) : Visit :=
  ⟨path.descend way, node.isDirectory⟩

mutual

theorem exists_reaches_of_mem_walk (path : Path) : (top : Node) → visit ∈ walk path top →
    ∃ way node, top.Reaches way node ∧ visit = visitAt path way node
  | file _, h => ⟨[], _, .here, List.mem_singleton.1 h⟩
  | special _, h => ⟨[], _, .here, List.mem_singleton.1 h⟩
  | link _, h => ⟨[], _, .here, List.mem_singleton.1 h⟩
  | directory entries _, h => by
    rw [walk] at h
    obtain rfl | h := List.mem_cons.1 h
    · exact ⟨[], _, .here, rfl⟩
    · obtain ⟨name, inner, way, node, hmem, hinner, rfl⟩ :=
        exists_reaches_of_mem_walkEntries path entries h
      exact ⟨name :: way, node, .deeper hmem hinner, rfl⟩

theorem exists_reaches_of_mem_walkEntries (path : Path) : (entries : List (FileName × Node)) →
    visit ∈ walkEntries path entries → ∃ name inner way node,
      (name, inner) ∈ entries ∧ inner.Reaches way node ∧ visit = visitAt (path.child name) way node
  | [], h => by cases h
  | (name, inner) :: rest, h => by
    rw [walkEntries] at h
    obtain h | h := List.mem_append.1 h
    · obtain ⟨way, node, hinner, rfl⟩ := exists_reaches_of_mem_walk (path.child name) inner h
      exact ⟨name, inner, way, node, List.mem_cons_self, hinner, rfl⟩
    · obtain ⟨name', inner', way, node, hmem, hinner, rfl⟩ :=
        exists_reaches_of_mem_walkEntries path rest h
      exact ⟨name', inner', way, node, List.mem_cons_of_mem _ hmem, hinner, rfl⟩

end

theorem walk_subset_walkEntries (path : Path) (h : (name, node) ∈ entries) :
    walk (path.child name) node ⊆ walkEntries path entries := by
  induction entries with
  | nil => cases h
  | cons entry rest ih =>
    obtain ⟨name', node'⟩ := entry
    rw [walkEntries]
    obtain h | h := List.mem_cons.1 h
    · cases h
      exact List.subset_append_left _ _
    · exact List.subset_append_of_subset_right _ (ih h)

theorem Reaches.mem_walk (h : top.Reaches way node) (path : Path) :
    visitAt path way node ∈ walk path top := by
  induction h generalizing path with
  | @here node => cases node <;> rw [walk] <;> exact List.mem_cons_self
  | deeper hmem _ ih =>
    rw [walk]
    exact List.mem_cons_of_mem _ (walk_subset_walkEntries path hmem (ih _))

/-- A walk meets a node and what is below it, and that alone. -/
theorem mem_walk_iff :
    visit ∈ walk path top ↔ ∃ way node, top.Reaches way node ∧ visit = visitAt path way node := by
  constructor
  · exact exists_reaches_of_mem_walk path top
  · rintro ⟨way, node, h, rfl⟩
    exact h.mem_walk path

/-! ## In which order -/

theorem exists_components_of_mem_walk (hpath : path.isEmpty = false) (htree : top.IsTree)
    (h : visit ∈ walk path top) :
    ∃ back, visit.path.components = path.components ++ back := by
  obtain ⟨way, node, hreaches, rfl⟩ := mem_walk_iff.1 h
  exact ⟨_, Path.components_descend hpath (hreaches.isEntryName htree)⟩

/-- What a walk meets below a directory goes on from it by the name of one of its entries. -/
theorem exists_components_of_mem_walkEntries (hpath : path.isEmpty = false)
    (htree : (directory entries barriers).IsTree) (h : visit ∈ walkEntries path entries) :
    ∃ entry ∈ entries, ∃ back,
      visit.path.components = path.components ++ .name entry.1 :: back := by
  obtain ⟨name, inner, way, node, hmem, hinner, rfl⟩ :=
    exists_reaches_of_mem_walkEntries path entries h
  obtain ⟨-, names, nodes⟩ := isTree_directory_iff.1 htree
  have hname := names _ hmem
  refine ⟨_, hmem, way.map .name, ?_⟩
  rw [visitAt, Path.components_descend (Path.isEmpty_child hpath hname.ne_empty)
    (hinner.isEntryName (nodes _ hmem)), Path.components_child hpath hname, List.append_assoc]
  rfl

mutual

theorem pairwise_walk {path : Path} (hpath : path.isEmpty = false) : (top : Node) →
    top.IsTree → (walk path top).Pairwise (·.path.Precedes ·.path)
  | file _, _ => List.pairwise_singleton _ _
  | special _, _ => List.pairwise_singleton _ _
  | link _, _ => List.pairwise_singleton _ _
  | directory entries _, htree => by
    rw [walk]
    refine List.pairwise_cons.2 ⟨fun visit hvisit => ?_, pairwise_walkEntries hpath entries htree⟩
    obtain ⟨_, _, back, hback⟩ := exists_components_of_mem_walkEntries hpath htree hvisit
    exact Path.precedes_of_components_eq_append hback

/-- A walk over the entries of a directory goes in the order of paths: what is below an entry has
the entry's name where what is below a later entry has a greater name. -/
theorem pairwise_walkEntries {path : Path} {barriers : Barriers} (hpath : path.isEmpty = false) :
    (entries : List (FileName × Node)) → (directory entries barriers).IsTree →
      (walkEntries path entries).Pairwise (·.path.Precedes ·.path)
  | [], _ => .nil
  | (name, node) :: rest, htree => by
    obtain ⟨sorted, names, nodes⟩ := isTree_directory_iff.1 htree
    obtain ⟨hname, hnames⟩ := List.forall_mem_cons.1 names
    obtain ⟨hnode, hnodes⟩ := List.forall_mem_cons.1 nodes
    have hrest : (directory rest barriers).IsTree := .directory _ sorted.tail hnames hnodes
    have hchild := Path.isEmpty_child hpath hname.ne_empty
    rw [walkEntries]
    refine List.pairwise_append.2 ⟨pairwise_walk hchild node hnode,
      pairwise_walkEntries hpath rest hrest, fun visit hvisit visit' hvisit' => ?_⟩
    obtain ⟨back, hback⟩ := exists_components_of_mem_walk hchild hnode hvisit
    obtain ⟨entry, hentry, back', hback'⟩ :=
      exists_components_of_mem_walkEntries hpath hrest hvisit'
    rw [Path.components_child hpath hname, List.append_assoc] at hback
    exact Path.precedes_of_name_lt hback hback' (List.rel_of_pairwise_cons sorted hentry)

end

end Node

/-! ## What a scan finds -/

namespace FileSystem

open Node

/-- A directory cannot be opened, and why: it is the node `top` at the path `directory` or below it,
and its path is too long, or a directory on the way refuses that anything is looked up in it, or it
refuses itself that its entries are listed. -/
def IsBarred (directory : Path) (top : Node) (path : Path) (e : FileError) : Prop :=
  ∃ way entries barriers, top.Reaches way (.directory entries barriers) ∧
    path = directory.descend way ∧
      (pathLimit < path.size ∧ e = .nameTooLong ∨
        path.size ≤ pathLimit ∧ (top.Refuses way e ∨
          (∀ e', ¬top.Refuses way e') ∧ barriers.listing = some e))

/-- The node at the end of a way from `top` is a file that can be looked up, or a link and what its
path leads to is a file. -/
def IsFileAt (files : FileSystem) (top : Node) (way : List FileName) (path : Path) : Node → Prop
  | .file _ => ∀ e, ¬top.Refuses way e
  | .link _ => ∃ content, files.LeadsTo path (.file content)
  | _ => False

/-- There is a file, or a link to one, below the node `top` at the path `directory`, under a name
that is a text and ends with the extension. Its path is not too long. -/
def Finds (files : FileSystem) (directory : Path) (top : Node) (extension : String)
    (path : Path) : Prop :=
  ∃ way name node, top.Reaches (way ++ [.text name]) node ∧
    path = directory.descend (way ++ [.text name]) ∧ extension.toList <:+ name.toList ∧
      files.IsFileAt top (way ++ [.text name]) path node ∧ path.size ≤ pathLimit

theorem hasExtension_iff {extension : String} {name : FileName} :
    hasExtension extension name ↔ ∃ text, name = .text text ∧ extension.toList <:+ text.toList := by
  cases name with
  | text text =>
    simp only [hasExtension, FileName.text?, Option.any_some, Option.isSome_iff_exists,
      Text.beforeSuffix_eq_some_iff, FileName.text.injEq, exists_eq_left']
    exact exists_congr fun _ => eq_comm
  | stray bytes => simp [hasExtension, FileName.text?]

variable {files : FileSystem} {directory : Path} {top : Node}

/-- A way to what is no link leads there, if it leads anywhere. -/
theorem LeadsTo.eq_of_descend (hleads : files.LeadsTo directory top) (htree : top.IsTree)
    {way : List FileName} {node node' : Node} (hreaches : top.Reaches way node)
    (hlink : ∀ target, node ≠ .link target) (h : files.LeadsTo (directory.descend way) node') :
    node' = node := by
  obtain ⟨e, -, hlocate⟩ | ⟨-, hnode⟩ := hleads.descend htree hreaches hlink
  · obtain ⟨place, hplace, -⟩ := h
    rw [hlocate] at hplace
    cases hplace
  · exact h.unique hnode

theorem isFile_descend_iff (hleads : files.LeadsTo directory top) (htree : top.IsTree)
    {way : List FileName} {node : Node} (hreaches : top.Reaches way node) :
    files.isFile (directory.descend way) ↔
      files.IsFileAt top way (directory.descend way) node ∧
        (directory.descend way).size ≤ pathLimit := by
  rw [isFile_iff]
  refine and_congr_left fun _ => ?_
  cases node with
  | file content =>
    obtain ⟨e, hrefuses, hlocate⟩ | ⟨hopen, hfile⟩ :=
      hleads.descend htree hreaches fun _ h => by cases h
    · refine iff_of_false (fun ⟨_, place, hplace, _⟩ => ?_) fun h => h e hrefuses
      rw [hlocate] at hplace
      cases hplace
    · exact iff_of_true ⟨content, hfile⟩ hopen
  | link target => exact Iff.rfl
  | special cause =>
    refine iff_of_false (fun ⟨content, hfile⟩ => ?_) id
    cases hleads.eq_of_descend htree hreaches (fun _ h => by cases h) hfile
  | directory inner barriers =>
    refine iff_of_false (fun ⟨content, hfile⟩ => ?_) id
    cases hleads.eq_of_descend htree hreaches (fun _ h => by cases h) hfile

/-- Why the directory at the end of a way cannot be listed. -/
theorem list_descend_eq_error_iff (hleads : files.LeadsTo directory top) (htree : top.IsTree)
    {way : List FileName} {entries : List (FileName × Node)} {barriers : Barriers}
    (hreaches : top.Reaches way (.directory entries barriers)) {e : FileError} :
    files.list (directory.descend way) = .error e ↔
      pathLimit < (directory.descend way).size ∧ e = .nameTooLong ∨
        (directory.descend way).size ≤ pathLimit ∧ (top.Refuses way e ∨
          (∀ e', ¬top.Refuses way e') ∧ barriers.listing = some e) := by
  have hcheck : checkPath (directory.descend way) = .ok () := by
    obtain ⟨place, hplace, -⟩ := hleads
    exact checkPath_descend (locate_eq_ok_iff.1 hplace).1 (hreaches.isEntryName htree)
  by_cases hsize : pathLimit < (directory.descend way).size
  · have hfind : files.find (directory.descend way) = .error .nameTooLong := by
      rw [find, hcheck, if_pos hsize]
      rfl
    rw [list, hfind]
    simp [hsize, Nat.not_le.2 hsize, eq_comm]
  · simp only [hsize, false_and, false_or, Nat.le_of_not_lt hsize, true_and]
    obtain ⟨e', hrefuses, hlocate⟩ | ⟨hopen, hdirectory⟩ :=
      hleads.descend htree hreaches fun _ h => by cases h
    · have hfind : files.find (directory.descend way) = .error e' := by
        rw [find, hcheck, if_neg hsize, hlocate]
        rfl
      rw [list, hfind]
      constructor
      · intro h
        cases h
        exact .inl hrefuses
      · rintro (h | ⟨hopen, -⟩)
        · exact congrArg _ (hrefuses.unique htree h)
        · exact absurd hrefuses (hopen e')
    · rw [list, find_eq_ok_iff.2 ⟨hdirectory, Nat.le_of_not_lt hsize⟩]
      simp only [hopen, not_false_eq_true, implies_true, true_and, false_or]
      cases barriers.listing <;> simp

/-- The directories that a walk opens, one after another. -/
def openedPaths (directory : Path) (top : Node) : List Path :=
  ((top.walk directory).filter Visit.isDirectory).map Visit.path

theorem isBarred_iff (hleads : files.LeadsTo directory top) (htree : top.IsTree) {path : Path}
    {e : FileError} :
    IsBarred directory top path e ↔
      path ∈ openedPaths directory top ∧ files.list path = .error e := by
  constructor
  · rintro ⟨way, entries, barriers, hreaches, rfl, hcause⟩
    have hvisit : visitAt directory way (.directory entries barriers) ∈
        (top.walk directory).filter Visit.isDirectory :=
      List.mem_filter.2 ⟨hreaches.mem_walk directory, rfl⟩
    exact ⟨List.mem_map_of_mem hvisit, (list_descend_eq_error_iff hleads htree hreaches).2 hcause⟩
  · rintro ⟨hpath, hlist⟩
    obtain ⟨visit, hvisit, rfl⟩ := List.mem_map.1 hpath
    obtain ⟨hvisit, hdirectory⟩ := List.mem_filter.1 hvisit
    obtain ⟨way, node, hreaches, rfl⟩ := mem_walk_iff.1 hvisit
    cases node with
    | directory entries barriers =>
      exact ⟨way, entries, barriers, hreaches, rfl,
        (list_descend_eq_error_iff hleads htree hreaches).1 hlist⟩
    | file _ => cases hdirectory
    | special _ => cases hdirectory
    | link _ => cases hdirectory

theorem obstacle?_eq_some_iff {path : Path} {cause : FileError} :
    files.obstacle? path = some cause ↔
      ∃ e, files.list path = .error e ∧ cause = .stopped path e := by
  unfold obstacle?
  cases files.list path <;> simp [eq_comm]

/-- The files that a scan keeps of what the walk meets. -/
def keptPaths (files : FileSystem) (directory : Path) (top : Node) (extension : String) :
    List Path :=
  ((top.walk directory).filter fun visit =>
    visit.path.fileName.any (hasExtension extension) && files.isFile visit.path).map Visit.path

theorem mem_keptPaths_iff (hleads : files.LeadsTo directory top) (hdirectory : top.isDirectory)
    (htree : top.IsTree) {extension : String} {path : Path} :
    path ∈ files.keptPaths directory top extension ↔
      files.Finds directory top extension path := by
  constructor
  · intro h
    obtain ⟨visit, hvisit, rfl⟩ := List.mem_map.1 h
    obtain ⟨hvisit, hkept⟩ := List.mem_filter.1 hvisit
    obtain ⟨hextension, hfile⟩ := Bool.and_eq_true_iff.1 hkept
    obtain ⟨way, node, hreaches, rfl⟩ := mem_walk_iff.1 hvisit
    obtain ⟨hfile, hsize⟩ := (isFile_descend_iff hleads htree hreaches).1 hfile
    obtain rfl | ⟨front, name, rfl⟩ := way.eq_nil_or_concat'
    · cases hreaches
      cases top with
      | directory _ _ => cases hfile
      | file _ => cases hdirectory
      | special _ => cases hdirectory
      | link _ => cases hdirectory
    · have hname := Path.fileName_descend hleads.isEmpty (hreaches.isEntryName htree)
      rw [visitAt, hname, Option.any_some] at hextension
      obtain ⟨text, rfl, hsuffix⟩ := hasExtension_iff.1 hextension
      exact ⟨front, text, node, hreaches, rfl, hsuffix, hfile, hsize⟩
  · rintro ⟨way, name, node, hreaches, rfl, hsuffix, hfile⟩
    have hname := Path.fileName_descend hleads.isEmpty (hreaches.isEntryName htree)
    refine List.mem_map.2 ⟨_, List.mem_filter.2 ⟨hreaches.mem_walk directory,
      Bool.and_eq_true_iff.2 ⟨?_, (isFile_descend_iff hleads htree hreaches).2 hfile⟩⟩, rfl⟩
    rw [visitAt, hname, Option.any_some]
    exact hasExtension_iff.2 ⟨name, rfl, hsuffix⟩

/-- What a scan of a directory comes to, by what the walk opens and what it keeps. -/
theorem scan_eq_of_find (hfind : files.find directory = .ok top) (hdirectory : top.isDirectory)
    (extension : String) :
    files.scan directory extension =
      match (openedPaths directory top).findSome? files.obstacle? with
      | some e => .error (.unreadable e)
      | none =>
        match files.keptPaths directory top extension with
        | [] => .error (.noFiles directory)
        | found => .ok found := by
  rw [scan, hfind]
  exact if_pos hdirectory

/-- The first directory of a walk that cannot be opened is the first in the order of paths. -/
theorem isBarred_of_findSome? (hleads : files.LeadsTo directory top) (htree : top.IsTree)
    {cause : FileError}
    (h : (openedPaths directory top).findSome? files.obstacle? = some cause) :
    ∃ path e, IsBarred directory top path e ∧ cause = .stopped path e ∧
      ∀ path' e', IsBarred directory top path' e' → path' = path ∨ path.Precedes path' := by
  obtain ⟨before, path, after, hopened, hobstacle, hbefore⟩ := List.findSome?_eq_some_iff.1 h
  obtain ⟨e, hlist, rfl⟩ := obstacle?_eq_some_iff.1 hobstacle
  have hsorted : (openedPaths directory top).Pairwise Path.Precedes :=
    List.pairwise_map.2 ((pairwise_walk hleads.isEmpty top htree).filter _)
  refine ⟨path, e, (isBarred_iff hleads htree).2 ⟨?_, hlist⟩, rfl, fun path' e' hbarred => ?_⟩
  · rw [hopened]
    exact List.mem_append_right before List.mem_cons_self
  · obtain ⟨hmem, hlist'⟩ := (isBarred_iff hleads htree).1 hbarred
    rw [hopened] at hmem hsorted
    obtain hmem | hmem := List.mem_append.1 hmem
    · have hnone := hbefore path' hmem
      rw [obstacle?_eq_some_iff.2 ⟨e', hlist', rfl⟩] at hnone
      cases hnone
    · obtain rfl | hmem := List.mem_cons.1 hmem
      · exact .inl rfl
      · exact .inr (List.rel_of_pairwise_cons (List.pairwise_append.1 hsorted).2.1 hmem)

theorem not_isBarred_of_findSome? (hleads : files.LeadsTo directory top) (htree : top.IsTree)
    (h : (openedPaths directory top).findSome? files.obstacle? = none) (path : Path)
    (e : FileError) : ¬IsBarred directory top path e := by
  intro hbarred
  obtain ⟨hpath, hlist⟩ := (isBarred_iff hleads htree).1 hbarred
  have hfree := List.findSome?_eq_none_iff.1 h path hpath
  rw [obstacle?_eq_some_iff.2 ⟨e, hlist, rfl⟩] at hfree
  cases hfree

/-- A scan of a directory fails at the first directory, in the order of paths, that cannot be
opened. If all can, it finds the files below the directory under names that are texts and end with
the extension, and the links to files under such names, each once and in the order of their paths;
links to directories are not followed. It says that there are none exactly if it has come to its end
and there are none. -/
theorem scan_finds (hroot : files.root.IsTree) (hfind : files.find directory = .ok top)
    (hdirectory : top.isDirectory) (extension : String) :
    ((∃ path e, IsBarred directory top path e) →
      ∃ path e, IsBarred directory top path e ∧
        (∀ path' e', IsBarred directory top path' e' → path' = path ∨ path.Precedes path') ∧
        files.scan directory extension = .error (.unreadable (.stopped path e))) ∧
    ((∀ path e, ¬IsBarred directory top path e) →
      (∃ path, files.Finds directory top extension path) →
      ∃ found, files.scan directory extension = .ok found ∧
        found.Pairwise Path.Precedes ∧ found.Nodup ∧
        ∀ path, path ∈ found ↔ files.Finds directory top extension path) ∧
    (files.scan directory extension = .error (.noFiles directory) ↔
      (∀ path e, ¬IsBarred directory top path e) ∧
        ∀ path, ¬files.Finds directory top extension path) := by
  obtain ⟨hleads, -⟩ := find_eq_ok_iff.1 hfind
  have htree : top.IsTree := by
    obtain ⟨place, hplace, hnode⟩ := hleads
    exact hnode ▸ (hasPlace_of_locate hplace).isTree hroot
  have hmem := fun path => @mem_keptPaths_iff _ _ _ hleads hdirectory htree extension path
  have hsorted : (files.keptPaths directory top extension).Pairwise Path.Precedes :=
    List.pairwise_map.2 ((pairwise_walk hleads.isEmpty top htree).filter _)
  have hscan := scan_eq_of_find hfind hdirectory extension
  cases hobstacle : (openedPaths directory top).findSome? files.obstacle? with
  | some cause =>
    rw [hobstacle] at hscan
    obtain ⟨path, e, hbarred, rfl, hfirst⟩ := isBarred_of_findSome? hleads htree hobstacle
    refine ⟨fun _ => ⟨path, e, hbarred, hfirst, hscan⟩, fun hnone => absurd hbarred (hnone _ _),
      ?_⟩
    rw [hscan]
    exact iff_of_false (fun h => by cases h) fun h => h.1 _ _ hbarred
  | none =>
    rw [hobstacle] at hscan
    have hnone := not_isBarred_of_findSome? hleads htree hobstacle
    refine ⟨fun ⟨path, e, hbarred⟩ => absurd hbarred (hnone path e), fun _ hfinds => ?_, ?_⟩
    · obtain ⟨path, hpath⟩ := hfinds
      have hkept := List.ne_nil_of_mem ((hmem path).2 hpath)
      refine ⟨_, ?_, hsorted, hsorted.imp fun {a b} h e => ?_, hmem⟩
      · cases hcase : files.keptPaths directory top extension with
        | nil => exact absurd hcase hkept
        | cons _ _ =>
          rw [hcase] at hscan
          exact hscan
      · subst e
        exact Path.Precedes.irrefl _ h
    · cases hcase : files.keptPaths directory top extension with
      | nil =>
        rw [hcase] at hscan
        refine iff_of_true hscan ⟨hnone, fun path hpath => ?_⟩
        have hpath := (hmem path).2 hpath
        rw [hcase] at hpath
        cases hpath
      | cons first rest =>
        rw [hcase] at hscan
        rw [hscan]
        refine iff_of_false (fun h => by cases h) fun h => h.2 first ?_
        rw [← hmem, hcase]
        exact List.mem_cons_self

end FileSystem

/-- A name that is no text, and one that is none and ends like the name of a file. -/
def strayName : FileName := .stray ⟨[0xFF], by decide⟩

def strayProto : FileName :=
  .stray ⟨[0xFF, 0x2E, 0x70, 0x72, 0x6F, 0x74, 0x6F], by decide⟩

/-- Files and directories whose names start alike, a link to a directory and one to a file, a
socket, and names that are no text. -/
def interleavedEntries : List (FileName × Node) :=
  [("a", .directory [("b.proto", .file "".toUTF8)]),
    ("a-b", .directory [("c.proto", .file "".toUTF8)]),
    ("a.proto", .file "".toUTF8),
    ("k.proto", .link "a"),
    ("s.proto", .special (.other "No such device or address (os error 6)")),
    ("z.proto", .link "a/b.proto"),
    (strayName, .directory [("d.proto", .file "".toUTF8)]),
    (strayProto, .file "".toUTF8)]

def interleaved : FileSystem where
  rootEntries := [("protos", .directory interleavedEntries)]
  workingDirectory := []

def interleavedFiles : List Path :=
  ["protos/a/b.proto", "protos/a-b/c.proto", "protos/a.proto", "protos/z.proto",
    ⟨["protos", strayName, "d.proto"]⟩]

/-- Directories that refuse that anything is looked up in them, or that they are listed. -/
def guardedEntries : List (FileName × Node) :=
  [("a", .directory [("b.proto", .file "".toUTF8)] { passage := some .permissionDenied }),
    ("b", .directory [("c.proto", .file "".toUTF8)] { listing := some .permissionDenied }),
    ("c", .directory [("d", .directory [])] { passage := some .permissionDenied })]

def guarded : FileSystem where
  rootEntries := [("protos", .directory guardedEntries)]
  workingDirectory := []

theorem interleaved_scan_finds :
    (interleaved.root.IsTree ∧
      interleaved.find "protos" = .ok (.directory interleavedEntries) ∧
      interleaved.scan "protos" ".proto" = .ok interleavedFiles ∧
      interleavedFiles.Pairwise Path.Precedes ∧
      ∀ path, path ∈ interleavedFiles ↔
        interleaved.Finds "protos" (.directory interleavedEntries) ".proto" path) ∧
    guarded.root.IsTree ∧
      guarded.find "protos" = .ok (.directory guardedEntries) ∧
      guarded.scan "protos" ".proto" =
        .error (.unreadable (.stopped "protos/b" .permissionDenied)) ∧
      FileSystem.IsBarred "protos" (.directory guardedEntries) "protos/b" .permissionDenied := by
  have hroot : interleaved.root.IsTree := by decide
  have hfind : interleaved.find "protos" = .ok (.directory interleavedEntries) := by cbv
  have hscan : interleaved.scan "protos" ".proto" = .ok interleavedFiles := by cbv
  have hopened : (FileSystem.openedPaths "protos" (.directory interleavedEntries)).findSome?
      interleaved.obstacle? = none := by cbv
  have hkept : interleaved.keptPaths "protos" (.directory interleavedEntries) ".proto" =
      interleavedFiles := by cbv
  obtain ⟨hleads, -⟩ := FileSystem.find_eq_ok_iff.1 hfind
  obtain ⟨-, hfinds, -⟩ := FileSystem.scan_finds hroot hfind rfl ".proto"
  obtain ⟨found, hfound, hsorted, -, hmem⟩ := hfinds
    (FileSystem.not_isBarred_of_findSome? hleads (by decide) hopened)
    ⟨"protos/a.proto", (FileSystem.mem_keptPaths_iff hleads rfl (by decide)).1
      (by simp [hkept, interleavedFiles])⟩
  rw [hscan] at hfound
  cases hfound
  have hroot' : guarded.root.IsTree := by decide
  have hfind' : guarded.find "protos" = .ok (.directory guardedEntries) := by cbv
  have hscan' : guarded.scan "protos" ".proto" =
      .error (.unreadable (.stopped "protos/b" .permissionDenied)) := by cbv
  have hlist' : guarded.list "protos/b" = .error .permissionDenied := by cbv
  obtain ⟨hleads', -⟩ := FileSystem.find_eq_ok_iff.1 hfind'
  obtain ⟨hstops, -⟩ := FileSystem.scan_finds hroot' hfind' rfl ".proto"
  obtain ⟨path, e, hbarred, -, hstopped⟩ := hstops
    ⟨"protos/b", .permissionDenied,
      (FileSystem.isBarred_iff hleads' (by decide)).2 ⟨by decide, hlist'⟩⟩
  rw [hscan'] at hstopped
  cases hstopped
  exact ⟨⟨hroot, hfind, hscan, hsorted, hmem⟩, hroot', hfind', hscan', hbarred⟩

/-! ## Paths that are too long -/

/-- The path of some names, with steps in front that stay where they are. -/
def Path.dotted (n : Nat) (names : List FileName) : Path := ⟨.replicate n "." ++ names⟩

namespace Path

theorem size_cons (name : FileName) {names : List FileName} (h : names ≠ []) :
    size ⟨name :: names⟩ = name.size + 1 + size ⟨names⟩ := by
  obtain ⟨next, rest, rfl⟩ := List.exists_cons_of_ne_nil h
  simp only [size, List.foldr_cons]
  omega

theorem size_dotted (n : Nat) {names : List FileName} (h : names ≠ []) :
    (dotted n names).size = 2 * n + size ⟨names⟩ := by
  induction n with
  | zero => rw [Nat.mul_zero, Nat.zero_add, dotted, List.replicate_zero, List.nil_append]
  | succ n ih =>
    have hnames : (dotted n names).segments ≠ [] := List.append_ne_nil_of_right_ne_nil _ h
    have hdot : FileName.size "." = 1 := by decide
    calc (dotted (n + 1) names).size = FileName.size "." + 1 + (dotted n names).size :=
          size_cons _ hnames
      _ = 2 * (n + 1) + size ⟨names⟩ := by
          rw [ih, hdot]
          omega

theorem isEmpty_dotted (n : Nat) {name : FileName} (h : name ≠ "") :
    (dotted n [name]).isEmpty = false := by
  rw [Bool.eq_false_iff, ne_eq, isEmpty_iff, dotted]
  cases n <;> simp [List.replicate_succ, h]

theorem isAbsolute_dotted (n : Nat) (name : FileName) : (dotted n [name]).isAbsolute = false := by
  rw [Bool.eq_false_iff, ne_eq, isAbsolute_iff, dotted]
  cases n <;> simp [List.replicate_succ]

theorem child_dotted (n : Nat) {name name' : FileName} (h : name ≠ "") :
    (dotted n [name]).child name' = dotted n [name, name'] := by
  have hstem : (dotted n [name]).stem = .replicate n "." ++ [name] := stem_eq_of_concat rfl h
  have hsegments := segments_child (isEmpty_dotted n h) name'
  rw [hstem, List.append_assoc] at hsegments
  exact congrArg mk hsegments

end Path

theorem FileSystem.follow_dotted {files : FileSystem} {links : Nat} {place : Place}
    {entries : List (FileName × Node)} {barriers : Barriers}
    (hdirectory : files.nodeAt place = .directory entries barriers)
    (hpassage : barriers.passage = none) (n : Nat) (names : List FileName) :
    files.follow links place (Path.dotted n names).segments = files.follow links place names := by
  induction n with
  | zero => rfl
  | succ n ih =>
    have hstep : (Path.dotted (n + 1) names).segments =
        .text "." :: (Path.dotted n names).segments := rfl
    rw [hstep, follow, hdirectory]
    simp [hpassage, ih]

/-- A directory with one file. -/
def narrowProtos : Node := .directory [("a.proto", .file "".toUTF8)]

def narrow : FileSystem where
  rootEntries := [("protos", narrowProtos)]
  workingDirectory := []

/-- The path `./././…/protos`. -/
def narrowPath (n : Nat) : Path := Path.dotted n ["protos"]

theorem narrow_leadsTo (n : Nat) : narrow.LeadsTo (narrowPath n) narrowProtos := by
  have hcheck : FileSystem.checkPath (narrowPath n) = .ok () := by
    refine FileSystem.checkPath_eq_ok_iff.2 ⟨fun segment hsegment => ?_,
      Path.isEmpty_dotted n (by decide)⟩
    obtain hdot | hlast := List.mem_append.1 hsegment
    · obtain rfl := List.eq_of_mem_replicate hdot
      decide
    · obtain rfl := List.mem_singleton.1 hlast
      decide
  have hstart : narrow.start (narrowPath n) = .ok [] := by
    rw [FileSystem.start, narrowPath, Path.isAbsolute_dotted]
    rfl
  have hfollow : narrow.follow FileSystem.linkLimit [] (narrowPath n).segments =
      .ok [("protos", narrowProtos)] := by
    rw [narrowPath, FileSystem.follow_dotted rfl rfl]
    cbv
  exact ⟨_, FileSystem.locate_eq_ok_iff.2 ⟨hcheck, [], hstart, hfollow⟩, rfl⟩

theorem narrow_find {n : Nat} (hn : n ≤ 2044) :
    narrow.find (narrowPath n) = .ok narrowProtos := by
  refine FileSystem.find_eq_ok_iff.2 ⟨narrow_leadsTo n, ?_⟩
  have hprotos : Path.size ⟨["protos"]⟩ = 6 := by decide
  rw [narrowPath, Path.size_dotted n (by simp), hprotos, FileSystem.pathLimit]
  omega

theorem narrow_scan {n : Nat} (hn : n ≤ 2044) (hlong : 2041 ≤ n) :
    narrow.scan (narrowPath n) ".proto" = .error (.noFiles (narrowPath n)) := by
  have hfind := narrow_find hn
  have hopened : narrow.obstacle? (narrowPath n) = none := by
    rw [FileSystem.obstacle?, FileSystem.list, hfind]
    rfl
  have hdirectory : narrow.isFile (narrowPath n) = false := by
    rw [FileSystem.isFile, hfind]
    rfl
  have hmissed : narrow.isFile ((narrowPath n).child "a.proto") = false := by
    rw [Bool.eq_false_iff, ne_eq, FileSystem.isFile_iff]
    rintro ⟨-, hfits⟩
    have hnames : Path.size ⟨["protos", "a.proto"]⟩ = 14 := by decide
    rw [narrowPath, Path.child_dotted n (by decide), Path.size_dotted n (by simp), hnames,
      FileSystem.pathLimit] at hfits
    omega
  -- The walk meets the directory and the file, which is not found.
  rw [FileSystem.scan_eq_of_find hfind rfl]
  simp [FileSystem.openedPaths, FileSystem.keptPaths, narrowProtos, Node.walk, Node.walkEntries,
    hopened, hdirectory, hmissed]

/-- A scan need not find every file below a directory: a directory may be found at a path so long
that the path of its file is too long, and the scan says that there are no files. -/
theorem narrow_scan_misses_file :
    narrow.root.IsTree ∧
      narrow.find (narrowPath 2044) = .ok narrowProtos ∧
      narrowProtos.Reaches ["a.proto"] (.file "".toUTF8) ∧
      ".proto".toList <:+ "a.proto".toList ∧
      narrow.scan (narrowPath 2044) ".proto" = .error (.noFiles (narrowPath 2044)) :=
  ⟨by decide, narrow_find (Nat.le_refl _), .deeper List.mem_cons_self .here, by decide,
    narrow_scan (Nat.le_refl _) (by omega)⟩

end RpcCatalog
