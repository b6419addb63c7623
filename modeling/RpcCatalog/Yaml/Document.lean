import RpcCatalog.Yaml.Token

/-!
# Documents

The tree of a YAML document.

* `Node`: scalars, lists, mappings, and aliases of nodes that carry an anchor.
* `Document.ofText?`: the document of a text that holds one document at most.
* `Document.target`: the node that an alias stands for.

An anchor is known by a number, which is the number of different anchor names before it; an alias
stands for the last node that carries the number its name has where the alias is written.
-/

set_option autoImplicit false

namespace RpcCatalog.Yaml

/-- A node of a document. -/
inductive Node where
  | scalar (anchor : Option Nat) (tag : Option (List Char)) (style : ScalarStyle)
      (text : List Char)
  | reference (anchor : Nat)
  | sequence (anchor : Option Nat) (items : List Node)
  | mapping (anchor : Option Nat) (pairs : List (Node × Node))
  deriving Inhabited

namespace Node

/-- The scalar that stands where nothing is written. -/
def blank : Node := .scalar none none .plain []

mutual

/-- The nodes that carry an anchor, each with its number, in the order in which they begin. -/
def anchored : Node → List (Nat × Node)
  | node@(scalar (some n) _ _ _) => [(n, node)]
  | scalar none _ _ _ => []
  | reference _ => []
  | node@(sequence anchor items) =>
    (anchor.map fun n => (n, node)).toList ++ anchoredItems items
  | node@(mapping anchor pairs) =>
    (anchor.map fun n => (n, node)).toList ++ anchoredPairs pairs

def anchoredItems : List Node → List (Nat × Node)
  | [] => []
  | node :: rest => anchored node ++ anchoredItems rest

def anchoredPairs : List (Node × Node) → List (Nat × Node)
  | [] => []
  | (key, value) :: rest => anchored key ++ anchored value ++ anchoredPairs rest

end

end Node

/-! ## From tokens to nodes -/

/-- The tokens still to be read, and the numbers of the anchor names seen so far. -/
structure Reader where
  tokens : List Token
  anchors : List (List Char × Nat) := []

namespace Reader

def next (r : Reader) : Token := r.tokens.head?.getD .streamEnd

def drop (r : Reader) : Reader := { r with tokens := r.tokens.tail }

def sees (r : Reader) (tokens : List Token) : Bool := tokens.contains r.next

/-- The number of an anchor name that is written here. -/
def number (r : Reader) (name : List Char) : Nat × Reader :=
  let n := r.anchors.length
  (n, { r with anchors := (name, n) :: r.anchors.filter (·.1 ≠ name) })

def knownHandles : List (List Char × List Char) :=
  [(['!'], ['!']), (['!', '!'], "tag:yaml.org,2002:".toList)]

/-- The full tag of a handle and suffix, if the handle is known. -/
def fullTag? (handles : List (List Char × List Char)) (handle suffix : List Char) :
    Option (List Char) :=
  if handle = [] then some suffix else (handles.lookup handle).map (· ++ suffix)

/-- The anchor and tag in front of a node, in either order. -/
def properties (handles : List (List Char × List Char)) (r : Reader) :
    Option (Option Nat × Option (List Char) × Reader) :=
  match r.next with
  | .anchor name =>
    let (n, r) := r.drop.number name
    match r.next with
    | .tag handle suffix => do
      return (some n, some (← fullTag? handles handle suffix), r.drop)
    | _ => some (some n, none, r)
  | .tag handle suffix => do
    let tag ← fullTag? handles handle suffix
    let r := r.drop
    match r.next with
    | .anchor name =>
      let (n, r) := r.drop.number name
      return (some n, some tag, r)
    | _ => return (none, some tag, r)
  | _ => some (none, none, r)

mutual

/-- The node from here on. Blocks may begin only where `block` holds; where `indentless` holds, a
list may begin without being further in. -/
def node (handles : List (List Char × List Char)) (block indentless : Bool) :
    Nat → Reader → Option (Node × Reader)
  | 0, _ => none
  | fuel + 1, r =>
    match r.next with
    | .reference name => do return (.reference (← r.anchors.lookup name), r.drop)
    | _ => do
      let (anchor, tag, r) ← r.properties handles
      match r.next with
      | .scalar style text => return (.scalar anchor tag style text, r.drop)
      | .flowSequenceStart =>
        let (items, r) ← flowItems handles true fuel r.drop
        return (.sequence anchor items, r)
      | .flowMappingStart =>
        let (pairs, r) ← flowPairs handles true fuel r.drop
        return (.mapping anchor pairs, r)
      | token =>
        if indentless && token = .blockEntry then
          let (items, r) ← indentlessItems handles fuel r
          return (.sequence anchor items, r)
        else if block && token = .blockSequenceStart then
          let (items, r) ← blockItems handles fuel r.drop
          return (.sequence anchor items, r)
        else if block && token = .blockMappingStart then
          let (pairs, r) ← blockPairs handles fuel r.drop
          return (.mapping anchor pairs, r)
        else if anchor.isSome || tag.isSome then return (.scalar anchor tag .plain [], r)
        else none

/-- The node from here on, or a blank one if one of some tokens comes next. -/
def nodeUnless (handles : List (List Char × List Char)) (block indentless : Bool)
    (ends : List Token) : Nat → Reader → Option (Node × Reader)
  | 0, _ => none
  | fuel + 1, r =>
    if r.sees ends then some (.blank, r) else node handles block indentless fuel r

def blockItems (handles : List (List Char × List Char)) :
    Nat → Reader → Option (List Node × Reader)
  | 0, _ => none
  | fuel + 1, r =>
    match r.next with
    | .blockEntry => do
      let (item, r) ← nodeUnless handles true false [.blockEntry, .blockEnd] fuel r.drop
      let (items, r) ← blockItems handles fuel r
      return (item :: items, r)
    | .blockEnd => some ([], r.drop)
    | _ => none

/-- The entries of a list that is no further in than the mapping around it. -/
def indentlessItems (handles : List (List Char × List Char)) :
    Nat → Reader → Option (List Node × Reader)
  | 0, _ => none
  | fuel + 1, r =>
    match r.next with
    | .blockEntry => do
      let (item, r) ←
        nodeUnless handles true false [.blockEntry, .key, .value, .blockEnd] fuel r.drop
      let (items, r) ← indentlessItems handles fuel r
      return (item :: items, r)
    | _ => some ([], r)

/-- The pairs of a block mapping, through its end. -/
def blockPairs (handles : List (List Char × List Char)) :
    Nat → Reader → Option (List (Node × Node) × Reader)
  | 0, _ => none
  | fuel + 1, r =>
    match r.next with
    | .key => do
      let ends : List Token := [.key, .value, .blockEnd]
      let (key, r) ← nodeUnless handles true true ends fuel r.drop
      let (value, r) ←
        if r.next = .value then nodeUnless handles true true ends fuel r.drop
        else some (.blank, r)
      let (pairs, r) ← blockPairs handles fuel r
      return ((key, value) :: pairs, r)
    | .blockEnd => some ([], r.drop)
    | _ => none

/-- The value after a key inside brackets, or a blank one. -/
def flowValue (handles : List (List Char × List Char)) (ends : List Token) :
    Nat → Reader → Option (Node × Reader)
  | 0, _ => none
  | fuel + 1, r =>
    if r.next = .value then nodeUnless handles false false ends fuel r.drop
    else some (.blank, r)

/-- The items of a list in brackets, through its end. A pair among them is a mapping of its own. -/
def flowItems (handles : List (List Char × List Char)) (first : Bool) :
    Nat → Reader → Option (List Node × Reader)
  | 0, _ => none
  | fuel + 1, r =>
    if r.next = .flowSequenceEnd then some ([], r.drop)
    else do
      guard (first || r.next = .flowEntry)
      let r := if first then r else r.drop
      match r.next with
      | .flowSequenceEnd => return ([], r.drop)
      | .key =>
        let ends : List Token := [.flowEntry, .flowSequenceEnd]
        let r := r.drop
        let (key, r) ←
          if r.sees (.value :: ends) then some (.blank, r.drop)
          else node handles false false fuel r
        let (value, r) ← flowValue handles ends fuel r
        let (items, r) ← flowItems handles false fuel r
        return (.mapping none [(key, value)] :: items, r)
      | _ =>
        let (item, r) ← node handles false false fuel r
        let (items, r) ← flowItems handles false fuel r
        return (item :: items, r)

/-- The pairs of a mapping in braces, through its end. -/
def flowPairs (handles : List (List Char × List Char)) (first : Bool) :
    Nat → Reader → Option (List (Node × Node) × Reader)
  | 0, _ => none
  | fuel + 1, r =>
    if r.next = .flowMappingEnd then some ([], r.drop)
    else do
      guard (first || r.next = .flowEntry)
      let r := if first then r else r.drop
      match r.next with
      | .flowMappingEnd => return ([], r.drop)
      | .key =>
        let ends : List Token := [.flowEntry, .flowMappingEnd]
        let (key, r) ← nodeUnless handles false false (.value :: ends) fuel r.drop
        let (value, r) ← flowValue handles ends fuel r
        let (pairs, r) ← flowPairs handles false fuel r
        return ((key, value) :: pairs, r)
      | _ =>
        let (key, r) ← node handles false false fuel r
        let (pairs, r) ← flowPairs handles false fuel r
        return ((key, .blank) :: pairs, r)

end

/-- The directives from here on: the version at most once, each handle at most once. -/
def directives : Nat → Bool → List (List Char × List Char) → Reader →
    Option (List (List Char × List Char) × Reader)
  | 0, _, _, _ => none
  | fuel + 1, versioned, handles, r =>
    match r.next with
    | .versionDirective major minor =>
      if versioned || major ≠ 1 || (minor ≠ 1 && minor ≠ 2) then none
      else directives fuel true handles r.drop
    | .tagDirective handle start =>
      if (handles.lookup handle).isSome then none
      else directives fuel versioned ((handle, start) :: handles) r.drop
    | _ => some (handles, r)

end Reader

/-! ## Documents -/

/-- A document; a text without any has no root. -/
structure Document where
  root : Option Node

namespace Document

/-- Whether nothing but ends of documents is left. -/
def atEnd (tokens : List Token) : Bool :=
  match tokens.dropWhile (· = .documentEnd) with
  | [] | .streamEnd :: _ => true
  | _ => false

/-- The document of a row of tokens, unless it is malformed or holds more than one. -/
def ofTokens? (tokens : List Token) : Option Document := do
  let fuel := 4 * tokens.length + 8
  let r : Reader := { tokens }
  if r.next = .streamEnd then return ⟨none⟩
  let (handles, r) ← r.directives fuel false []
  let explicit := r.next = .documentStart
  guard (explicit || r.tokens.length = tokens.length)
  let handles := handles ++ Reader.knownHandles
  let (root, r) ←
    if explicit then
      let r := r.drop
      match r.next with
      | .versionDirective .. | .tagDirective .. => some (.blank, r)
      | .documentStart | .documentEnd | .streamEnd => some (.blank, r)
      | _ => r.node handles true false fuel
    else r.node handles true false fuel
  guard (atEnd r.tokens)
  return ⟨some root⟩

/-- The document of a text, unless it is malformed or holds more than one. -/
def ofText? (text : String) : Option Document := (tokens? text.toList).bind ofTokens?

/-- The node that a node stands for: an alias stands for an anchored one. -/
def target (document : Document) : Node → Node
  | .reference n =>
    let anchored := (document.root.map Node.anchored).getD []
    ((anchored.reverse.lookup n).getD .blank)
  | node => node

def text? (document : Document) (node : Node) : Option String :=
  match document.target node with
  | .scalar _ _ _ text => some (String.ofList text)
  | _ => none

/-- The text of a scalar that is no text for sure: it is plain, or literal with the given tag. -/
def bareText? (document : Document) (tag : String) (node : Node) : Option (List Char) :=
  match document.target node with
  | .scalar _ actual style text =>
    if style = .plain || (style = .literal && actual = some tag.toList) then some text else none
  | _ => none

/-- The number that digits of a base write, if there is any digit and no other character. -/
def digits? (base : Nat) (digits : List Char) : Option Nat :=
  if digits.isEmpty then none
  else digits.foldlM (fun n c => do
    let d ← hexDigit? c
    guard (d < base)
    return n * base + d) 0

/-- The number that a scalar writes: decimal without leading zeros, or with `0x`, `0o` or `0b`. -/
def readNumber? (text : List Char) : Option Nat :=
  let unsigned := match text with
    | '+' :: rest => rest
    | text => text
  match unsigned with
  | '0' :: 'x' :: digits => digits? 16 digits
  | '0' :: 'o' :: digits => digits? 8 digits
  | '0' :: 'b' :: digits => digits? 2 digits
  | '0' :: _ :: _ => none
  | digits => digits? 10 digits

def number? (document : Document) (node : Node) : Option UInt32 := do
  let n ← readNumber? (← document.bareText? "tag:yaml.org,2002:int" node)
  guard (n < UInt32.size)
  return n.toUInt32

def bool? (document : Document) (node : Node) : Option Bool := do
  let text ← document.bareText? "tag:yaml.org,2002:bool" node
  if ["true".toList, "True".toList, "TRUE".toList].contains text then return true
  guard (["false".toList, "False".toList, "FALSE".toList].contains text)
  return false

/-- The items of a list; where nothing is written, there are none. -/
def items? (document : Document) (node : Node) : Option (List Node) :=
  match document.target node with
  | .sequence _ items => some items
  | .scalar _ _ .plain [] => some []
  | _ => none

/-- The pairs of a mapping; where nothing is written, there are none. -/
def pairs? (document : Document) (node : Node) : Option (List (Node × Node)) :=
  match document.target node with
  | .mapping _ pairs => some pairs
  | .scalar _ _ .plain [] => some []
  | _ => none

def rootPairs? (document : Document) : Option (List (Node × Node)) :=
  match document.root with
  | some root => document.pairs? root
  | none => some []

end Document

end RpcCatalog.Yaml
