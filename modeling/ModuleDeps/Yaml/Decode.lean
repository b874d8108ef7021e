import ModuleDeps.Yaml.Node
import ModuleDeps.Yaml.Resolve

/-!
# Reading documents as data

A node is read into a place of a given shape, which may hold something
already.  A node that does not fit leaves the place alone; the document is then
mistyped, but the rest of it is read all the same.  Reading stops at once at a
scalar that its tag does not fit, at an alias that leads to itself and when
almost everything read comes from aliases.

A mapping takes in the mappings under its merge key.  Names that it has itself
keep their values, and so do those of the mappings taken in before.  For this
the keys of the mapping are remembered, which only scalars can be.
-/

set_option autoImplicit false

namespace ModuleDeps.Yaml

/-! ## Shapes and data -/

inductive Shape
  | text
  | number
  | truth
  | list (item : Shape)
  | map (key value : Shape)
  | record (field : Text → Option Shape)
  | any

def Shape.ofFields (fields : List (String × Shape)) : Shape :=
  .record fun name => (fields.find? fun f => utf8 f.1 == name).map Prod.snd

/-- What a place holds; at first it holds nothing. -/
inductive Datum
  | nothing
  | text (t : Text)
  | number (n : Int)
  | truth (b : Bool)
  | list (items : List Datum)
  | map (rows : List (Value × Datum))
  | scalar (v : Value)
deriving Repr

namespace Datum

/-- The datum as the key of a map, which a collection cannot be. -/
def key? : Datum → Option Value
  | .nothing => some .null
  | .text t => some (.text t)
  | .number n => some (.int n)
  | .truth b => some (.bool b)
  | .list _ => none
  | .map _ => none
  | .scalar v => some v

def rows : Datum → List (Value × Datum)
  | .map rows => rows
  | _ => []

def isNothing : Datum → Bool
  | .nothing => true
  | _ => false

def field (datum : Datum) (name : String) : Datum :=
  ((datum.rows.find? fun row => row.1 == .text (utf8 name)).map Prod.snd).getD .nothing

def items? : Datum → Option (List Datum)
  | .list items => some items
  | _ => none

def rows? : Datum → Option (List (Value × Datum))
  | .map rows => some rows
  | _ => none

def text? : Datum → Option Text
  | .text t => some t
  | _ => none

def number? : Datum → Option Int
  | .number n => some n
  | _ => none

def truth? : Datum → Option Bool
  | .truth b => some b
  | _ => none

end Datum

/-! ## Documents -/

namespace Document

/-- The node itself, or the one that an alias stands for. -/
def content (d : Document) : Node → Node
  | .alias _ _ place => d.anchored.getD place .empty
  | n => n

def tag (d : Document) (n : Node) : Text :=
  match d.content n with
  | .scalar tag plain t => scalarTag tag plain t
  | .sequence tag _ => if tag.isEmpty then utf8 "!!seq" else tag
  | .mapping tag _ => if tag.isEmpty then utf8 "!!map" else tag
  | .alias _ _ _ => []

def isNull (d : Document) (n : Node) : Bool := d.tag n == utf8 "!!null"

def isMapping (d : Document) (n : Node) : Bool :=
  match d.content n with
  | .mapping _ _ => true
  | _ => false

def hasTextKeys (d : Document) (pairs : List (Node × Node)) : Bool :=
  pairs.all fun p => [utf8 "!!str", utf8 "!!merge"].contains (d.tag p.1)

end Document

/-! ## Keys -/

/-- Whether two keys count as the same: both are scalars, or both aliases,
with the same text, or both collections of one kind. -/
def sameKey : Node → Node → Bool
  | .scalar _ _ a, .scalar _ _ b => a == b
  | .alias _ a _, .alias _ b _ => a == b
  | .sequence _ _, .sequence _ _ => true
  | .mapping _ _, .mapping _ _ => true
  | _, _ => false

def hasDuplicate : List (Node × Node) → Bool
  | [] => false
  | pair :: rest => rest.any (fun other => sameKey pair.1 other.1) || hasDuplicate rest

def isMergeKey : Node → Bool
  | .scalar tag plain t => t == utf8 "<<" && scalarTag tag plain t == utf8 "!!merge"
  | _ => false

/-! ## Runs -/

inductive Stop
  | refused
  /-- A collection was to be remembered as a key. -/
  | collectionKey
deriving DecidableEq, Repr

structure Tally where
  /-- How many nodes were read; the document itself counts. -/
  total : Nat := 1
  /-- How many of them were reached through an alias. -/
  aliased : Nat := 0
  /-- The numbers of the aliases being followed. -/
  following : List Nat := []
  /-- The keys that a mapping being taken in must leave alone. -/
  held : Option (List Value) := none
  mistyped : Bool := false
deriving DecidableEq, Repr

namespace Tally

/-- Up to this many nodes, 99 in 100 may come from aliases. -/
def fewNodes : Nat := 400000

/-- From this many nodes on, 10 in 100 may come from aliases. -/
def manyNodes : Nat := 4000000

/-- Whether too much comes from aliases.  Between few and many nodes the share
that is allowed falls evenly. -/
def excessive (t : Tally) : Bool :=
  100 < t.aliased && 1000 < t.total &&
    if t.total ≤ fewNodes then 99 * t.total < 100 * t.aliased
    else if manyNodes ≤ t.total then 10 * t.total < 100 * t.aliased
    else
      let range := manyNodes - fewNodes
      t.total * (99 * range - 89 * (t.total - fewNodes)) < 100 * range * t.aliased

def count (t : Tally) : Tally :=
  { t with
    total := t.total + 1
    aliased := if t.following.isEmpty then t.aliased else t.aliased + 1 }

end Tally

abbrev Decode := StateT Tally (Except Stop)

/-- A place is left alone, or holds something new. -/
abbrev Change := Option Datum

def mistyped : Decode Change := do
  modify fun t => { t with mistyped := true }
  return none

def countNode : Decode Unit := do
  modify Tally.count
  if (← get).excessive then throw .refused

/-! ## Scalars -/

def yesWords : List String := ["y", "Y", "yes", "Yes", "YES", "on", "On", "ON"]

def noWords : List String := ["n", "N", "no", "No", "NO", "off", "Off", "OFF"]

/-- A 64-bit number; a fraction is cut off. -/
def Value.number? : Value → Option Int
  | .int n => if n < 0x8000000000000000 then some n else none
  | .float whole => whole
  | _ => none

def Value.truth? : Value → Option Bool
  | .bool b => some b
  | .text t =>
    if yesWords.any fun w => utf8 w == t then some true
    else if noWords.any fun w => utf8 w == t then some false
    else none
  | _ => none

/-- Reads null, which empties collections and leaves other places alone. -/
def Shape.null : Shape → Change
  | .list _ => some .nothing
  | .map _ _ => some .nothing
  | .any => some .nothing
  | _ => none

/-- Reads a scalar with the given value.  As a text, numbers and the like count
as written. -/
def decodeScalar (shape : Shape) (written : Text) (v : Value) : Decode Change :=
  if v = .null then return shape.null
  else
    let read : Change :=
      match shape with
      | .text =>
        match v with
        | .text t => some (.text t)
        | _ => some (.text written)
      | .number => v.number?.map .number
      | .truth => v.truth?.map .truth
      | .any => some (.scalar v)
      | _ => none
    match read with
    | some datum => return some datum
    | none => mistyped

/-! ## Collections -/

abbrev Decoder := Shape → Datum → Node → Decode Change

def decodeItems (self : Decoder) (shape : Shape) (items : List Node) : Decode Change :=
  match shape with
  | .list item => do
    let found ← items.mapM fun n => self item .nothing n
    return some (.list (found.filterMap id))
  | .any => do
    let found ← items.mapM fun n => self .any .nothing n
    return some (.list (found.filterMap id))
  | _ => mistyped

/-- A map or a record that is being filled. -/
structure Filling where
  rows : List (Value × Datum)
  held : Option (List Value)
  /-- The fields of a record that this mapping has set. -/
  fields : List Text := []

namespace Filling

def get (f : Filling) (key : Value) : Datum :=
  ((f.rows.find? fun row => row.1 == key).map Prod.snd).getD .nothing

def has (f : Filling) (key : Value) : Bool := f.rows.any fun row => row.1 == key

def put (f : Filling) (key : Value) (v : Datum) : Filling :=
  { f with rows := f.rows.filter (fun row => row.1 != key) ++ [(key, v)] }

def holds (f : Filling) (key : Value) : Bool :=
  (f.held.map fun keys => keys.contains key).getD false

def hold (f : Filling) (key : Value) : Filling := { f with held := f.held.map (key :: ·) }

end Filling

/-- Reads a pair of a mapping into a record.  Unknown fields are passed over
unread. -/
def fillField (self : Decoder) (field : Text → Option Shape) (f : Filling) (p : Node × Node) :
    Decode Filling := do
  if isMergeKey p.1 then return f
  else
    match ← self .text .nothing p.1 with
    | some (.text name) =>
      let key := Value.text name
      if f.holds key then return f
      else
        let f := f.hold key
        match field name with
        | none => return f
        | some shape =>
          if f.fields.contains name then
            let _ ← mistyped
            return f
          else
            let f := { f with fields := name :: f.fields }
            match ← self shape (f.get key) p.2 with
            | some v => return f.put key v
            | none => return f
    | _ => return f

/-- Reads a pair of a mapping into a map.  A null that leaves its place alone
still makes a row, unless there is one already; `new` says that the map was
made for this mapping. -/
def fillRow (d : Document) (self : Decoder) (key value : Shape) (new : Bool) (f : Filling)
    (p : Node × Node) : Decode Filling := do
  if isMergeKey p.1 then return f
  else
    match ← self key .nothing p.1 with
    | none => return f
    | some k =>
      match k.key? with
      | none => throw (if f.held.isSome then .collectionKey else .refused)
      | some k =>
        if f.holds k then return f
        else
          let f := f.hold k
          match ← self value .nothing p.2 with
          | some v => return f.put k v
          | none =>
            if d.isNull p.2 && (new || !f.has k) then return f.put k .nothing else return f

def holdKey (self : Decoder) (p : Node × Node) : Decode Unit := do
  match ← self .any .nothing p.1 with
  | none => return ()
  | some k =>
    match k.key? with
    | none => throw .collectionKey
    | some k => modify fun t => { t with held := t.held.map (k :: ·) }

def takeIn (d : Document) (self : Decoder) (shape : Shape) (now : Datum) (n : Node) :
    Decode Datum := do
  if d.isMapping n then return (← self shape now n).getD now else throw .refused

/-- Takes in what stands under the merge key: a mapping, or a sequence of
mappings. -/
def takeInAll (d : Document) (self : Decoder) (shape : Shape) (pairs : List (Node × Node))
    (now : Datum) (source : Node) : Decode Datum := do
  let outer := (← get).held
  if outer.isNone then
    modify fun t => { t with held := some [] }
    pairs.forM (holdKey self)
  let now ←
    match source with
    | .sequence _ items => items.foldlM (takeIn d self shape) now
    | n => takeIn d self shape now n
  if outer.isNone then modify fun t => { t with held := none }
  return now

/-- Reads the pairs of a mapping, and takes in what the last merge key asks
for. -/
def fillWith (d : Document) (self : Decoder) (shape : Shape) (now : Datum)
    (pairs : List (Node × Node)) (fill : Filling → Node × Node → Decode Filling) :
    Decode Change := do
  let held := (← get).held
  modify fun t => { t with held := none }
  let f ← pairs.foldlM fill { rows := now.rows, held }
  modify fun t => { t with held := f.held }
  match (pairs.filter fun p => isMergeKey p.1).getLast? with
  | none => return some (.map f.rows)
  | some (_, source) => return some (← takeInAll d self shape pairs (.map f.rows) source)

def decodePairs (d : Document) (self : Decoder) (shape : Shape) (now : Datum)
    (pairs : List (Node × Node)) : Decode Change :=
  if hasDuplicate pairs then mistyped
  else
    match shape with
    | .record field => fillWith d self shape now pairs (fillField self field)
    | .map key value => fillWith d self shape now pairs (fillRow d self key value now.isNothing)
    | .any =>
      let key := if d.hasTextKeys pairs then Shape.text else .any
      fillWith d self (.map key .any) (.map []) pairs (fillRow d self key .any false)
    | _ => mistyped

/-! ## Nodes -/

/-- Reads a node; `self` reads the nodes below it. -/
def decodeNode (d : Document) (self : Decoder) (shape : Shape) (now : Datum) (n : Node) :
    Decode Change := do
  countNode
  match n with
  | .scalar tag plain t =>
    match scalarValue tag plain t with
    | some v => decodeScalar shape t v
    | none => throw .refused
  | .sequence _ items => decodeItems self shape items
  | .mapping _ pairs => decodePairs d self shape now pairs
  | .alias number _ _ =>
    if (← get).following.contains number then throw .refused
    else
      modify fun t => { t with following := number :: t.following }
      let change ← self shape now (d.content n)
      modify fun t => { t with following := t.following.erase number }
      return change

def decode (d : Document) : Nat → Shape → Datum → Node → Decode Change
  | 0, _, _, _ => throw .refused
  | fuel + 1, shape, now, n => decodeNode d (decode d fuel) shape now n

/-- What a document holds, read by a shape; nothing when it is mistyped.  No
path into a document follows an alias twice. -/
def Document.read (d : Document) (shape : Shape) : Except Stop (Option Datum) := do
  let fuel := d.size * (d.aliases + 2)
  let (change, tally) ← (decode d fuel shape .nothing d.root).run {}
  return if tally.mistyped then none else some (change.getD .nothing)

end ModuleDeps.Yaml
