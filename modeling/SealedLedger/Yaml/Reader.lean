import SealedLedger.Yaml.Scalar

/-!
# Reading YAML documents

A YAML text stands for the same kind of value as a JSON text. Aliases are replaced by the nodes they
refer to, up to a number of times that grows with the text; keys are texts whatever they spell, and
must be distinct in each mapping; and values nest at most 128 deep.

An anchor may be given anew. Anchors are numbered by the names given so far, so an anchor given anew
and the next new one share a number, and an alias refers to the last node of its number in the whole
document.

A node that is no value is reported before anything wrong with the text after it. Where both the
nodes and the end of a document are right, there must be no other document.

## Main definitions

* `Yaml.link` — aliases by number.
* `Yaml.valueOf` — the value of a node.
* `Yaml.read?` — the value of a text.
-/

namespace SealedLedger

namespace Yaml

/-! ### Anchors by number -/

/-- The names of anchors given so far, with their numbers. -/
abbrev Names := List (List Char × Nat)

/-- The names after an anchor, and the number of it. -/
def Names.give (names : Names) (name : List Char) : Names × Nat :=
  let n := names.length
  (if names.any (·.1 == name) then names.map fun m => if m.1 == name then (name, n) else m
    else names ++ [(name, n)], n)

/-- The names after a node's properties, and the number of its anchor. -/
def Names.after (names : Names) (p : Properties) : Names × Option Nat :=
  match p.anchor with
  | none => (names, none)
  | some name => let (names, n) := names.give name; (names, some n)

/-- Nodes with anchors, by number, in the order the anchors are given. -/
abbrev Anchored := List (Nat × Node Nat)

/-- An entry for a node with an anchor. -/
def anchored (n : Option Nat) (node : Node Nat) : Anchored :=
  n.toList.map fun n => (n, node)

/-- Nodes with their aliases by number, the names after them, the anchored nodes in them, and
whether an alias ends them that refers to a name not given before. -/
structure Linked where
  nodes : List (Node Nat)
  names : Names
  targets : Anchored
  fault : Option Error

/-- The nodes linked as those of a collection, in front of which the names were given. It is whole
when it has been so and no alias ends it. -/
def Linked.within (r : Linked) (n : Option Nat) (whole : Bool)
    (collection : List (Node Nat) → Bool → Node Nat) : Linked :=
  let linked := collection r.nodes (whole && r.fault.isNone)
  ⟨[linked], r.names, anchored n linked ++ r.targets, r.fault⟩

mutual

/-- A node with its aliases by number. -/
def link : Node (List Char) → Names → Linked
  | .alias m name, names =>
    match names.find? (·.1 == name) with
    | none => ⟨[], names, [], some (.unknownAnchor m)⟩
    | some target => ⟨[.alias m target.2], names, [], none⟩
  | .scalar p plain text, names =>
    let (names, n) := names.after p
    let linked := .scalar p plain text
    ⟨[linked], names, anchored n linked, none⟩
  | .sequence p items whole, names =>
    let (names, n) := names.after p
    (linkAll items names).within n whole (.sequence p)
  | .mapping p nodes whole, names =>
    let (names, n) := names.after p
    (linkAll nodes names).within n whole (.mapping p)
termination_by structural n => n

/-- Nodes with their aliases by number, up to the first alias that refers to nothing. -/
def linkAll : List (Node (List Char)) → Names → Linked
  | [], names => ⟨[], names, [], none⟩
  | n :: ns, names =>
    let r := link n names
    if r.fault.isSome then r
    else
      let more := linkAll ns r.names
      ⟨r.nodes ++ more.nodes, more.names, r.targets ++ more.targets, more.fault⟩
termination_by structural ns => ns

end

/-! ### The size of a document -/

mutual

/-- The number of scalars, aliases, starts and ends in a node. -/
def weight {ref : Type} : Node ref → Nat
  | .alias .. => 1
  | .scalar .. => 1
  | .sequence _ items whole => weightAll items + 1 + whole.toNat
  | .mapping _ nodes whole => weightAll nodes + 1 + whole.toNat
termination_by structural n => n

/-- The weight of nodes. -/
def weightAll {ref : Type} : List (Node ref) → Nat
  | [] => 0
  | n :: ns => weight n + weightAll ns
termination_by structural ns => ns

end

/-! ### Documents -/

/-- A document: its node, if it has got so far, its anchored nodes, how often aliases may be
followed in it, and the tokens after it or the error that it ends in. -/
structure Document where
  root : Option (Node Nat)
  nodes : Anchored
  limit : Nat
  rest : Except Error (List Lexeme)

/-- A document from its nodes. -/
def Document.ofParsed (r : Parsed) : Document :=
  let linked := linkAll r.nodes []
  ⟨linked.nodes.head?, linked.targets, 100 * weightAll linked.nodes,
    match linked.fault with
    | some e => .error e
    | none => r.rest⟩

/-- What is reported where the document breaks off. -/
def Document.stop (d : Document) : Error :=
  match d.rest with
  | .error e => e
  | .ok _ => .endOfText

/-- The last node of a number. -/
def Document.node? (d : Document) (n : Nat) : Option (Node Nat) :=
  (d.nodes.reverse.find? (·.1 == n)).map (·.2)

/-! ### Values -/

/-- The node that a node is or refers to, with the number of aliases followed. -/
def follow (d : Document) (jumps : Nat) : Node Nat → Except Error (Node Nat × Nat)
  | .alias m n =>
    if d.limit < jumps + 1 then .error .tooManyAliases
    else
      match d.node? n with
      | none => .error (.unknownAnchor m)
      | some node => .ok (node, jumps + 1)
  | node => .ok (node, jumps)

/-- The text of a key in the mapping on a path. -/
def keyText (d : Document) (path : Path) (jumps : Nat) (n : Node Nat) :
    Except Error (String × Nat) := do
  match ← follow d jumps n with
  | (.scalar _ _ text, jumps) => return (String.ofList text, jumps)
  | (.sequence p _ _, _) => throw (.refused .sequenceAsKey path p.mark)
  | (.mapping p _ _, _) => throw (.refused .mappingAsKey path p.mark)
  | (.alias m _, _) => throw (.unknownAnchor m)

/-- The path to the value of a key. -/
def valuePath (path : Path) (key : String) : Node Nat → Path
  | .alias .. => .unnamed path
  | _ => .member path key

/-- Values of the items of a sequence from a position on, with the number of aliases followed. -/
def itemValues (value : Path → Nat → Node Nat → Except Error (Value × Nat)) (path : Path) :
    Nat → Nat → List (Node Nat) → Except Error (List Value × Nat)
  | _, jumps, [] => .ok ([], jumps)
  | index, jumps, n :: ns => do
    let (v, jumps) ← value (.item path index) jumps n
    let (vs, jumps) ← itemValues value path (index + 1) jumps ns
    return (v :: vs, jumps)

/-- Members of a mapping that starts at a place, from its keys and values, with the number of
aliases followed. The keys are distinct. -/
def pairValues (d : Document) (value : Path → Nat → Node Nat → Except Error (Value × Nat))
    (path : Path) (m : Mark) :
    Nat → List (String × Value) → List (Node Nat) → Except Error (List (String × Value) × Nat)
  | jumps, done, [] => .ok (done, jumps)
  | jumps, done, k :: ns => do
    let (key, jumps) ← keyText d path jumps k
    if done.any (·.1 == key) then throw (.refused (.repeatedKey key) path m)
    match ns with
    | [] => throw d.stop
    | n :: ns =>
      let (v, jumps) ← value (valuePath path key k) jumps n
      pairValues d value path m jumps (done ++ [(key, v)]) ns

/-- Something read from a collection, when the text does not break off in it. -/
def Document.unlessBroken {α : Type} (d : Document) (whole : Bool) (a : α) : Except Error α :=
  if whole then .ok a else .error d.stop

/-- The value of a node on a path, inside at most the given number of containers, with the number of
aliases followed. -/
def valueOf (d : Document) : Nat → Path → Nat → Node Nat → Except Error (Value × Nat)
  | depth, path, jumps, n => do
    match ← follow d jumps n with
    | (.scalar p plain text, jumps) =>
      match scalarValue p plain text with
      | .error r => throw (.refused r path p.mark)
      | .ok v => return (v, jumps)
    | (.sequence p items whole, jumps) =>
      if isOwnTag p.tag then throw (.refused .ownTag path p.mark)
      match depth with
      | 0 => throw (.nestedTooDeep p.mark)
      | depth + 1 =>
        let (vs, jumps) ← itemValues (valueOf d depth) path 0 jumps items
        d.unlessBroken whole (.array vs, jumps)
    | (.mapping p nodes whole, jumps) =>
      if isOwnTag p.tag then throw (.refused .ownTag path p.mark)
      match depth with
      | 0 => throw (.nestedTooDeep p.mark)
      | depth + 1 =>
        let (ms, jumps) ← pairValues d (valueOf d depth) path p.mark jumps [] nodes
        d.unlessBroken whole (.object ms, jumps)
    | (.alias m _, _) => throw (.unknownAnchor m)

/-! ### Whole texts -/

/-- The value of a document. -/
def Document.value (d : Document) : Except Error Value :=
  match d.root with
  | none => .error d.stop
  | some n => (valueOf d 128 .root 0 n).map (·.1)

/-- The value that a text spells. An empty text spells null. -/
def read? (text : List Char) : Except Error Value :=
  match firstDocument? (.ofText text) with
  | none => .ok .null
  | some r => do
    let d := Document.ofParsed r
    let v ← d.value
    let ts ← d.rest
    if onlyEnds ts then return v else throw .severalDocuments

end Yaml

end SealedLedger
