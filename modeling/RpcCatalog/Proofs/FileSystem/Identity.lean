import RpcCatalog.FileSystem.Lookup

/-!
# Identities of files

What the identity of a path says about the file that the path leads to.

* `FileSystem.HasPlace`: a place whose way is really in the tree; following a path only reaches such
  places (`hasPlace_of_locate`), and the names on the way determine them (`HasPlace.ext`).
* `FileSystem.readText_unique`: paths of one identity that can be read give one text; a file that
  can be read at one path can be read wherever it is found (`FileSystem.readText_of_isFile`).
* `FileSystem.fileIdentities`: the identities of all files of a tree, as many as there are files
  (`length_fileIdentities`); every path that can be read has one of them
  (`identity_mem_of_readText`).
-/

set_option autoImplicit false

namespace RpcCatalog

namespace FileSystem

/-! ## Places -/

/-- Each name on the way to the place is found in the directory before it. -/
def HasPlace (files : FileSystem) : Place → Prop
  | [] => True
  | (name, node) :: way =>
    (∃ entries barriers, files.nodeAt way = .directory entries barriers ∧
      NameMap.findIn name entries = some node) ∧ files.HasPlace way

theorem hasPlace_root (files : FileSystem) : files.HasPlace [] := trivial

theorem HasPlace.tail {files : FileSystem} {place : Place} (h : files.HasPlace place) :
    files.HasPlace place.tail := by
  cases place with
  | nil => exact h
  | cons entry way => exact h.2

/-- The names on the way determine a place. -/
theorem HasPlace.ext {files : FileSystem} {place place' : Place} (h : files.HasPlace place)
    (h' : files.HasPlace place') (names : place.map Prod.fst = place'.map Prod.fst) :
    place = place' := by
  induction place generalizing place' with
  | nil => simpa using names.symm
  | cons entry way ih =>
    cases place' with
    | nil => simp at names
    | cons entry' way' =>
      obtain ⟨name, node⟩ := entry
      obtain ⟨name', node'⟩ := entry'
      obtain ⟨⟨entries, barriers, hdir, hfind⟩, hway⟩ := h
      obtain ⟨⟨entries', barriers', hdir', hfind'⟩, hway'⟩ := h'
      simp only [List.map_cons, List.cons.injEq] at names
      obtain ⟨rfl, hnames⟩ := names
      obtain rfl := ih hway hway' hnames
      have hentries : entries = entries' := by
        rw [hdir] at hdir'
        exact (Node.directory.inj hdir').1
      subst hentries
      rw [hfind] at hfind'
      rw [Option.some.inj hfind']

theorem hasPlace_of_follow {files : FileSystem} {links : Nat} {place place' : Place}
    {way : List FileName} (h : files.HasPlace place)
    (hfollow : files.follow links place way = .ok place') : files.HasPlace place' := by
  fun_induction files.follow links place way with
  | case1 links place => cases hfollow; exact h
  | case2 links place rest entries barriers hnode ih => exact ih h hfollow
  | case3 => simp at hfollow
  | case4 links place rest entries barriers hnode _ _ ih => exact ih h hfollow
  | case5 links place rest entries barriers hnode _ _ _ ih => exact ih h.tail hfollow
  | case6 => simp at hfollow
  | case7 => simp at hfollow
  | case8 => simp at hfollow
  | case9 place segment rest entries barriers hnode _ _ _ _ _ target hfind links' ih =>
    refine ih ?_ hfollow
    cases target.isAbsolute with
    | false => exact h
    | true => exact hasPlace_root files
  | case10 links place segment rest entries barriers hnode _ _ _ _ _ node _ hfind ih =>
    exact ih ⟨⟨entries, barriers, hnode, hfind⟩, h⟩ hfollow
  | case11 => simp at hfollow

theorem hasPlace_of_placeAt {files : FileSystem} {place place' : Place} {way : List FileName}
    (h : files.HasPlace place) (hplace : files.placeAt place way = .ok place') :
    files.HasPlace place' := by
  induction way generalizing place with
  | nil =>
    cases hplace
    exact h
  | cons name way ih =>
    rw [placeAt] at hplace
    split at hplace
    · next node hfind =>
      have hentry : ∃ entries barriers, files.nodeAt place = .directory entries barriers ∧
          NameMap.findIn name entries = some node := by
        cases hnode : files.nodeAt place with
        | directory entries barriers =>
          rw [hnode] at hfind
          exact ⟨entries, barriers, rfl, hfind⟩
        | file _ =>
          rw [hnode] at hfind
          cases hfind
        | special _ =>
          rw [hnode] at hfind
          cases hfind
        | link _ =>
          rw [hnode] at hfind
          cases hfind
      have hnext : files.HasPlace ((name, node) :: place) := ⟨hentry, h⟩
      exact ih hnext hplace
    · cases hplace

theorem hasPlace_of_start {files : FileSystem} {path : Path} {place : Place}
    (h : files.start path = .ok place) : files.HasPlace place := by
  unfold start at h
  cases habsolute : path.isAbsolute with
  | false =>
    rw [habsolute] at h
    exact hasPlace_of_placeAt (hasPlace_root files) h
  | true =>
    rw [habsolute] at h
    cases h
    exact hasPlace_root files

/-- What a path needs to lead to a place. -/
theorem locate_eq_ok_iff {files : FileSystem} {path : Path} {place : Place} :
    files.locate path = .ok place ↔ checkPath path = .ok () ∧
      ∃ start, files.start path = .ok start ∧
        files.follow linkLimit start path.segments = .ok place := by
  unfold locate
  cases checkPath path with
  | error e => simp [bind, Except.bind]
  | ok _ => cases files.start path <;> simp [bind, Except.bind]

theorem hasPlace_of_locate {files : FileSystem} {path : Path} {place : Place}
    (h : files.locate path = .ok place) : files.HasPlace place := by
  obtain ⟨-, start, hstart, hfollow⟩ := locate_eq_ok_iff.1 h
  exact hasPlace_of_follow (hasPlace_of_start hstart) hfollow

/-! ## Reading -/

theorem locate_of_find {files : FileSystem} {path : Path} {node : Node}
    (h : files.find path = .ok node) :
    ∃ place, files.locate path = .ok place ∧ files.nodeAt place = node := by
  unfold find at h
  cases hcheck : checkPath path with
  | error e => rw [hcheck] at h; cases h
  | ok _ =>
    rw [hcheck] at h
    have h : (if pathLimit < path.size then .error .nameTooLong
        else files.locate path >>= fun place => pure (files.nodeAt place)) = Except.ok node := h
    split at h
    · cases h
    · cases hlocate : files.locate path with
      | error e => rw [hlocate] at h; cases h
      | ok place =>
        rw [hlocate] at h
        exact ⟨place, rfl, Except.ok.inj h⟩

theorem locate_of_readText {files : FileSystem} {path : Path} {text : String}
    (h : files.readText path = .ok text) :
    ∃ place content, files.locate path = .ok place ∧ files.nodeAt place = .file content ∧
      String.fromUTF8? content = some text := by
  unfold readText at h
  split at h
  · next content hfind =>
    split at h
    · next text' hutf =>
      cases h
      obtain ⟨place, hplace, hnode⟩ := locate_of_find hfind
      exact ⟨place, content, hplace, hnode, hutf⟩
    · cases h
  · cases h
  · cases h
  · cases h

theorem identity_of_locate {files : FileSystem} {path : Path} {place : Place}
    (h : files.locate path = .ok place) :
    files.identity path = .root :: (place.map Prod.fst).reverse.map .name := by
  simp only [identity, h, ← List.map_reverse, List.map_map]
  rfl

/-- Paths of one identity that lead somewhere lead to one place. -/
theorem locate_unique {files : FileSystem} {path path' : Path} {place place' : Place}
    (same : files.identity path = files.identity path') (h : files.locate path = .ok place)
    (h' : files.locate path' = .ok place') : place = place' := by
  rw [identity_of_locate h, identity_of_locate h'] at same
  have names : place.map Prod.fst = place'.map Prod.fst := by
    have hmap := (List.cons.inj same).2
    exact List.reverse_inj.1 (List.map_inj_right (fun _ _ => PathComponent.name.inj) |>.1 hmap)
  exact (hasPlace_of_locate h).ext (hasPlace_of_locate h') names

/-- An identity determines a text, whichever of its paths is read. -/
theorem readText_unique {files : FileSystem} {path path' : Path} {text text' : String}
    (same : files.identity path = files.identity path') (h : files.readText path = .ok text)
    (h' : files.readText path' = .ok text') : text = text' := by
  obtain ⟨place, content, hplace, hnode, htext⟩ := locate_of_readText h
  obtain ⟨place', content', hplace', hnode', htext'⟩ := locate_of_readText h'
  obtain rfl := locate_unique same hplace hplace'
  rw [hnode] at hnode'
  obtain rfl := Node.file.inj hnode'
  rw [htext] at htext'
  exact Option.some.inj htext'

/-- A file that can be read at one path can be read at any other where it is found. -/
theorem readText_of_isFile {files : FileSystem} {path path' : Path} {text : String}
    (same : files.identity path = files.identity path') (h : files.readText path = .ok text)
    (hfile : files.isFile path') : files.readText path' = .ok text := by
  unfold isFile at hfile
  split at hfile
  · next node hfind =>
    cases node with
    | file content' =>
      obtain ⟨place, content, hplace, hnode, htext⟩ := locate_of_readText h
      obtain ⟨place', hplace', hnode'⟩ := locate_of_find hfind
      obtain rfl := locate_unique same hplace hplace'
      rw [hnode] at hnode'
      obtain rfl := Node.file.inj hnode'
      simp only [readText, hfind, htext]
    | special _ => cases hfile
    | link _ => cases hfile
    | directory _ _ => cases hfile
  · cases hfile

end FileSystem

/-! ## All files of a tree -/

namespace Node

mutual

/-- The ways to the files in a node, each with its last name first, from the node at a way. -/
def fileWays (way : List FileName) : Node → List (List FileName)
  | file _ => [way]
  | special _ => []
  | link _ => []
  | directory entries _ => entriesFileWays way entries

/-- The ways to the files in the entries of the directory at a way. -/
def entriesFileWays (way : List FileName) : List (FileName × Node) → List (List FileName)
  | [] => []
  | (name, node) :: rest => fileWays (name :: way) node ++ entriesFileWays way rest

end

mutual

theorem length_fileWays (way : List FileName) : (node : Node) →
    (fileWays way node).length = node.fileCount
  | file _ => rfl
  | special _ => rfl
  | link _ => rfl
  | directory entries _ => by
    rw [fileWays, fileCount]
    exact length_entriesFileWays way entries

theorem length_entriesFileWays (way : List FileName) : (entries : List (FileName × Node)) →
    (entriesFileWays way entries).length = entriesFileCount entries
  | [] => rfl
  | (name, node) :: rest => by
    rw [entriesFileWays, entriesFileCount, List.length_append, length_fileWays (name :: way) node,
      length_entriesFileWays way rest]

end

theorem fileWays_subset_entriesFileWays {way : List FileName} {entries : List (FileName × Node)}
    {name : FileName} {node : Node} (h : NameMap.findIn name entries = some node) :
    fileWays (name :: way) node ⊆ entriesFileWays way entries := by
  induction entries with
  | nil => cases h
  | cons entry rest ih =>
    obtain ⟨name', node'⟩ := entry
    intro w hw
    rw [NameMap.findIn] at h
    rw [entriesFileWays, List.mem_append]
    split at h
    · next hname =>
      subst hname
      obtain rfl := Option.some.inj h
      exact .inl hw
    · exact .inr (ih h hw)

end Node

namespace FileSystem

/-- The identities of the files of a tree. -/
def fileIdentities (files : FileSystem) : List Identity :=
  (files.root.fileWays []).map fun way => .root :: way.reverse.map .name

theorem length_fileIdentities (files : FileSystem) :
    files.fileIdentities.length = files.fileCount := by
  rw [fileIdentities, List.length_map, Node.length_fileWays, fileCount]

theorem HasPlace.fileWays_subset {files : FileSystem} {place : Place} (h : files.HasPlace place) :
    (files.nodeAt place).fileWays (place.map Prod.fst) ⊆ files.root.fileWays [] := by
  induction place with
  | nil => exact List.Subset.refl _
  | cons entry way ih =>
    obtain ⟨name, node⟩ := entry
    obtain ⟨⟨entries, barriers, hdir, hfind⟩, hway⟩ := h
    have hsub := ih hway
    rw [hdir, Node.fileWays] at hsub
    exact List.Subset.trans (Node.fileWays_subset_entriesFileWays hfind) hsub

/-- What can be read is a file of the tree. -/
theorem identity_mem_of_readText {files : FileSystem} {path : Path} {text : String}
    (h : files.readText path = .ok text) : files.identity path ∈ files.fileIdentities := by
  obtain ⟨place, content, hplace, hnode, -⟩ := locate_of_readText h
  have hmem := (hasPlace_of_locate hplace).fileWays_subset
  rw [hnode, Node.fileWays] at hmem
  rw [identity_of_locate hplace]
  exact List.mem_map_of_mem (hmem List.mem_cons_self)

end FileSystem

end RpcCatalog
