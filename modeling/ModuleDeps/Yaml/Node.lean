import ModuleDeps.Yaml.Queue

/-!
# Documents of YAML

A document is a tree of scalars, sequences and mappings, in which an alias
stands for an anchored node.  Only the first document of a stream is read.

An anchor is bound where its node starts, so an alias inside of the node may
refer to the node itself.  Anchored nodes are therefore kept in a table, and
an alias holds a place in it.
-/

set_option autoImplicit false

namespace ModuleDeps.Yaml

/-- Tags are held in their short form, an empty one where none is given. -/
inductive Node
  | scalar (tag : Text) (plain : Bool) (text : Text)
  | sequence (tag : Text) (items : List Node)
  | mapping (tag : Text) (pairs : List (Node × Node))
  /-- An alias with a number of its own and the place of the node that it
  stands for. -/
  | alias (number : Nat) (name : Text) (place : Nat)
deriving Repr

def Node.empty : Node := .scalar [] true []

instance : Inhabited Node := ⟨.empty⟩

structure Document where
  root : Node
  /-- The anchored nodes, in the order in which they start. -/
  anchored : Array Node
  /-- How many aliases there are. -/
  aliases : Nat
  /-- More than the number of nodes. -/
  size : Nat
deriving Repr

structure Reader where
  queue : Queue
  /-- The anchors with the places of their nodes, the last bound first. -/
  anchors : List (Text × Nat) := []
  anchored : Array Node := #[]
  aliases : Nat := 0
  handles : List (Text × Text) := []

abbrev Read := StateT Reader Option

namespace Reader

def peek : Read Token := fun r => do
  let (token, queue) ← r.queue.first
  return (token, { r with queue })

def skip : Read Unit := fun r => some ((), { r with queue := r.queue.rest })

def fail {α : Type} : Read α := fun _ => none

/-! ## Properties -/

def standardTag : Text := utf8 "tag:yaml.org,2002:"

def standardHandles : List (Text × Text) := [(utf8 "!", utf8 "!"), (utf8 "!!", standardTag)]

def shortTag (t : Text) : Text :=
  if t.startsWith standardTag then utf8 "!!" ++ t.drop standardTag.length else t

/-- The tag of a node; an exclamation mark alone is none. -/
def resolveTag (handle suffix : Text) : Read Text := fun r =>
  let full? : Option Text :=
    if handle.isEmpty then some suffix
    else
      ((r.handles ++ standardHandles).find? fun row => row.1 == handle).map fun row =>
        row.2 ++ suffix
  full?.map fun full => (shortTag full, r)

/-- The anchor and the tag in front of a node, in either order. -/
def properties : Read (Option Text × Text) := do
  match ← peek with
  | .anchor name =>
    skip
    match ← peek with
    | .tag handle suffix =>
      skip
      return (some name, ← resolveTag handle suffix)
    | _ => return (some name, [])
  | .tag handle suffix =>
    skip
    match ← peek with
    | .anchor name =>
      skip
      return (some name, ← resolveTag handle suffix)
    | _ => return (none, ← resolveTag handle suffix)
  | _ => return (none, [])

def bindAnchor (anchor : Option Text) : Read (Option Nat) := fun r =>
  match anchor with
  | some name =>
    let place := r.anchored.size
    some (some place, { r with
      anchors := (name, place) :: r.anchors
      anchored := r.anchored.push .empty })
  | none => some (none, r)

def settle (place : Option Nat) (n : Node) : Read Node := fun r =>
  match place with
  | some i => some (n, { r with anchored := r.anchored.setIfInBounds i n })
  | none => some (n, r)

def aliasNode (name : Text) : Read Node := fun r =>
  match r.anchors.find? fun row => row.1 == name with
  | some row => some (.alias r.aliases name row.2, { r with aliases := r.aliases + 1 })
  | none => none

/-! ## Nodes -/

mutual

/-- A node, in block or in flow context; `indentless` allows the entries of a
sequence without a deeper indentation. -/
def node : Nat → Bool → Bool → Read Node
  | 0, _, _ => fail
  | fuel + 1, block, indentless => do
    match ← peek with
    | .alias name =>
      let n ← aliasNode name
      skip
      return n
    | _ =>
      let (anchor, tag) ← properties
      let explicit := !tag.isEmpty
      let tag := if tag = utf8 "!" then [] else tag
      let t ← peek
      let place ← bindAnchor anchor
      match t with
      | .scalar text plain =>
        skip
        settle place (.scalar tag plain text)
      | _ =>
        if indentless && t == .blockEntry then
          settle place (.sequence tag (← indentlessEntries fuel))
        else if t == .flowSequence then
          skip
          settle place (.sequence tag (← flowEntries fuel true))
        else if t == .flowMapping then
          skip
          settle place (.mapping tag (← flowPairs fuel true))
        else if block && t == .blockSequence then
          skip
          settle place (.sequence tag (← blockEntries fuel))
        else if block && t == .blockMapping then
          skip
          settle place (.mapping tag (← blockPairs fuel))
        else if anchor.isSome || explicit then settle place (.scalar tag true [])
        else fail

/-- A node unless one of the given tokens follows, which leave it empty. -/
def nodeUnless : Nat → List Token → Bool → Bool → Read Node
  | 0, _, _, _ => fail
  | fuel + 1, ends, block, indentless => do
    if ends.contains (← peek) then return .empty
    else node fuel block indentless

def blockEntries : Nat → Read (List Node)
  | 0 => fail
  | fuel + 1 => do
    match ← peek with
    | .blockEntry =>
      skip
      let item ← nodeUnless fuel [.blockEntry, .blockEnd] true false
      return item :: (← blockEntries fuel)
    | .blockEnd =>
      skip
      return []
    | _ => fail

def indentlessEntries : Nat → Read (List Node)
  | 0 => fail
  | fuel + 1 => do
    match ← peek with
    | .blockEntry =>
      skip
      let item ← nodeUnless fuel [.blockEntry, .key, .value, .blockEnd] true false
      return item :: (← indentlessEntries fuel)
    | _ => return []

def blockPairs : Nat → Read (List (Node × Node))
  | 0 => fail
  | fuel + 1 => do
    match ← peek with
    | .key =>
      skip
      let key ← nodeUnless fuel [.key, .value, .blockEnd] true true
      let value ← blockValue fuel
      return (key, value) :: (← blockPairs fuel)
    | .blockEnd =>
      skip
      return []
    | _ => fail

def blockValue : Nat → Read Node
  | 0 => fail
  | fuel + 1 => do
    match ← peek with
    | .value =>
      skip
      nodeUnless fuel [.key, .value, .blockEnd] true true
    | _ => return .empty

def flowEntries : Nat → Bool → Read (List Node)
  | 0, _ => fail
  | fuel + 1, first => do
    match ← peek with
    | .flowSequenceEnd =>
      skip
      return []
    | t =>
      if !first then
        if t == .flowEntry then skip else fail
      match ← peek with
      | .flowSequenceEnd =>
        skip
        return []
      | .key =>
        skip
        let pair ← flowSinglePair fuel
        return .mapping [] [pair] :: (← flowEntries fuel false)
      | _ =>
        let item ← node fuel false false
        return item :: (← flowEntries fuel false)

/-- A pair that stands in a flow sequence. -/
def flowSinglePair : Nat → Read (Node × Node)
  | 0 => fail
  | fuel + 1 => do
    let key ← do
      if [Token.value, .flowEntry, .flowSequenceEnd].contains (← peek) then
        skip
        pure Node.empty
      else node fuel false false
    match ← peek with
    | .value =>
      skip
      return (key, ← nodeUnless fuel [.flowEntry, .flowSequenceEnd] false false)
    | _ => return (key, .empty)

def flowPairs : Nat → Bool → Read (List (Node × Node))
  | 0, _ => fail
  | fuel + 1, first => do
    match ← peek with
    | .flowMappingEnd =>
      skip
      return []
    | t =>
      if !first then
        if t == .flowEntry then skip else fail
      match ← peek with
      | .flowMappingEnd =>
        skip
        return []
      | .key =>
        skip
        let key ← nodeUnless fuel [.value, .flowEntry, .flowMappingEnd] false false
        let value ← flowValue fuel
        return (key, value) :: (← flowPairs fuel false)
      | _ =>
        let key ← node fuel false false
        return (key, .empty) :: (← flowPairs fuel false)

def flowValue : Nat → Read Node
  | 0 => fail
  | fuel + 1 => do
    match ← peek with
    | .value =>
      skip
      nodeUnless fuel [.flowEntry, .flowMappingEnd] false false
    | _ => return .empty

end

/-! ## Documents -/

/-- The directives in front of a document; the version at most once, and no
handle twice. -/
def directives : Nat → Bool → Read Unit
  | 0, _ => fail
  | fuel + 1, versioned => do
    match ← peek with
    | .versionDirective major minor =>
      if versioned || major != 1 || minor != 1 then fail
      else
        skip
        directives fuel true
    | .tagDirective handle lead =>
      let r ← get
      if r.handles.any fun row => row.1 == handle then fail
      else
        set { r with handles := r.handles ++ [(handle, lead)] }
        skip
        directives fuel versioned
    | _ => return ()

/-- The tokens that leave an announced document empty. -/
def isDocumentEdge : Token → Bool
  | .versionDirective _ _ | .tagDirective _ _ | .documentStart | .documentEnd | .streamEnd => true
  | _ => false

/-- The first document, if there is one.  The token behind it is looked at as
well. -/
def document (fuel : Nat) : Read (Option Node) := do
  let _ ← peek
  skip
  match ← peek with
  | .streamEnd => return none
  | .versionDirective _ _ | .tagDirective _ _ | .documentStart =>
    directives fuel false
    if (← peek) == .documentStart then
      skip
      if isDocumentEdge (← peek) then return some .empty
      else
        let n ← node fuel true false
        let _ ← peek
        return some n
    else fail
  | _ =>
    let n ← node fuel true false
    let _ ← peek
    return some n

end Reader

/-- The first document of a text: nothing when the text holds none, and a
refusal when it is no YAML.  No character makes more than four tokens. -/
def parse (t : Text) : Option (Option Document) := do
  let queue := Queue.ofText t
  let size := 8 * queue.cursor.room + 16
  let (root, r) ← (Reader.document size).run { queue }
  return root.map fun root => ⟨root, r.anchored, r.aliases, size⟩

end ModuleDeps.Yaml
