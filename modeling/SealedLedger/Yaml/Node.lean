import SealedLedger.Yaml.Token

/-!
# Nodes of a YAML document

The tokens of a text are put together to nodes: scalars, sequences and mappings, each perhaps with
an anchor and a tag, and aliases. Where a node is left out an empty plain scalar stands for it.

What stands in front of a fault is read all the same. A collection that the text breaks off in has
the nodes up to there and is marked as not whole.

## Main definitions

* `Yaml.Node`.
* `Yaml.Parsed` — nodes with the tokens after them, or with the error that they end in.
* `Yaml.firstDocument?` — the first document of a text.
-/

namespace SealedLedger

namespace Yaml

/-- What a node has besides its content, and the place where it starts. -/
structure Properties where
  anchor : Option (List Char)
  tag : Option (List UInt8)
  mark : Mark
  deriving DecidableEq

/-- A node has an anchor or a tag. -/
def Properties.any (p : Properties) : Bool :=
  p.anchor.isSome || p.tag.isSome

/-- A node, with references to other nodes of a given kind. The nodes of a mapping are its keys and
values by turns. A collection that the text breaks off in is not whole. -/
inductive Node (ref : Type) where
  | alias (mark : Mark) (target : ref)
  | scalar (p : Properties) (plain : Bool) (text : List Char)
  | sequence (p : Properties) (items : List (Node ref)) (whole : Bool)
  | mapping (p : Properties) (nodes : List (Node ref)) (whole : Bool)

/-- The node that stands for one left out. It is never refused, so its place does not matter. -/
def Node.empty : Node (List Char) :=
  .scalar ⟨none, none, .start⟩ true []

/-- What each tag handle stands for. -/
abbrev Handles := List (List Char × List UInt8)

/-- The handles that need no directive. -/
def defaultHandles : Handles :=
  [(['!'], Utf8.encode ['!']), (['!', '!'], utf8 "tag:yaml.org,2002:")]

/-! ### Results of reading tokens -/

/-- Nodes in their order, with the tokens after them, or with the error that they end in. -/
structure Parsed where
  nodes : List (Node (List Char))
  rest : Except Error (List Lexeme)

namespace Parsed

/-- No node, in front of the given tokens. -/
def nothing (ts : List Lexeme) : Parsed :=
  ⟨[], .ok ts⟩

/-- A single node. -/
def one (n : Node (List Char)) (ts : List Lexeme) : Parsed :=
  ⟨[n], .ok ts⟩

/-- No node, and an error. -/
def fail (e : Error) : Parsed :=
  ⟨[], .error e⟩

/-- No node, and a problem at a place, in something that starts at another. -/
def wrong (p : Problem) (m : Mark) (a : Activity) (start : Mark) : Parsed :=
  fail (.malformed ⟨p, m, some ⟨a, start⟩⟩)

/-- More nodes, read from the tokens after these. -/
def andThen (r : Parsed) (next : List Lexeme → Parsed) : Parsed :=
  match r.rest with
  | .error _ => r
  | .ok ts =>
    let more := next ts
    ⟨r.nodes ++ more.nodes, more.rest⟩

/-- The nodes as those of a collection. -/
def within (r : Parsed) (collection : List (Node (List Char)) → Bool → Node (List Char)) :
    Parsed :=
  ⟨[collection r.nodes r.rest.isOk], r.rest⟩

end Parsed

/-- What is known while nodes are read: what the handles stand for, and what is reported where the
tokens end. -/
structure Setting where
  handles : Handles
  stop : Error

/-! ### Properties -/

/-- A tag with its handle replaced by what it stands for. -/
def resolveTag (handles : Handles) (t : Tag) : Option (List UInt8) :=
  if t.handle = [] then some t.suffix
  else (handles.find? (·.1 == t.handle)).map fun h => h.2 ++ t.suffix

/-- The properties of a node with a tag, for the places of the node and of the tag. The token after
them is looked at first. -/
def tagged (c : Setting) (anchor : Option (List Char)) (t : Tag) (start tagMark : Mark)
    (ts : List Lexeme) : Except Error (Properties × List Lexeme) :=
  if ts = [] then .error c.stop
  else
    match resolveTag c.handles t with
    | none => .error (.malformed ⟨.unknownHandle, tagMark, some ⟨.node, start⟩⟩)
    | some tag => .ok (⟨anchor, some tag, start⟩, ts)

/-- The anchor and the tag in front of a node, in either order. -/
def properties (c : Setting) : List Lexeme → Except Error (Properties × List Lexeme)
  | ⟨.anchor a, m⟩ :: ⟨.tag t, tagMark⟩ :: ts => tagged c (some a) t m tagMark ts
  | ⟨.tag t, m⟩ :: ⟨.anchor a, _⟩ :: ts => tagged c (some a) t m m ts
  | ⟨.anchor a, m⟩ :: ts => .ok (⟨some a, none, m⟩, ts)
  | ⟨.tag t, m⟩ :: ts => tagged c none t m m ts
  | l :: ts => .ok (⟨none, none, l.mark⟩, l :: ts)
  | [] => .error c.stop

/-! ### Collections -/

/-- A token after which a node of a block has been left out. -/
def leavesBlockNode : List Lexeme → Bool
  | ⟨.key, _⟩ :: _ => true
  | ⟨.value, _⟩ :: _ => true
  | ⟨.blockEnd, _⟩ :: _ => true
  | _ => false

/-- A token after which an item of a block sequence has been left out. -/
def leavesBlockItem : List Lexeme → Bool
  | ⟨.blockEntry, _⟩ :: _ => true
  | ⟨.blockEnd, _⟩ :: _ => true
  | _ => false

/-- A token after which an item of a sequence without a block of its own has been left out. -/
def leavesIndentlessItem (ts : List Lexeme) : Bool :=
  leavesBlockNode ts || leavesBlockItem ts

/-- A token after which a node between brackets has been left out. -/
def leavesFlowNode (closing : Token) : List Lexeme → Bool
  | [] => false
  | l :: _ => l.token = .flowEntry ∨ l.token = closing

/-- A node or, where it is left out, the empty one. -/
def nodeOrEmpty (leftOut : Bool) (node : List Lexeme → Parsed) (ts : List Lexeme) : Parsed :=
  if leftOut then .one .empty ts else node ts

/-- The value after a key: a node, perhaps left out, after the token of a value, or the empty one
where that token is missing. -/
def valueOrEmpty (c : Setting) (leavesOut : List Lexeme → Bool) (node : List Lexeme → Parsed) :
    List Lexeme → Parsed
  | [] => .fail c.stop
  | ⟨.value, _⟩ :: ts => nodeOrEmpty (leavesOut ts) node ts
  | ts => .one .empty ts

/-- The tokens after the comma between the nodes of a bracket, or the same ones in front of the
first node. -/
def afterComma (p : Problem) (a : Activity) (start : Mark) (first : Bool) (ts : List Lexeme) :
    Parsed :=
  if first then .nothing ts
  else
    match ts with
    | ⟨.flowEntry, _⟩ :: ts => .nothing ts
    | l :: _ => .wrong p l.mark a start
    | [] => .nothing []

mutual

/-- A node, with an allowance of steps. `block` lets it be a block collection, and `indentless` a
sequence without a block of its own. -/
def node (c : Setting) (block indentless : Bool) : Nat → List Lexeme → Parsed
  | 0, _ => .fail .endOfText
  | _ + 1, ⟨.alias name, m⟩ :: ts => .one (.alias m name) ts
  | fuel + 1, ts =>
    match properties c ts with
    | .error e => .fail e
    | .ok (_, []) => .fail c.stop
    | .ok (p, l :: ts) =>
      match l.token with
      | .scalar plain text => .one (.scalar p plain text) ts
      | .flowSequenceStart => (flowItems c l.mark fuel true ts).within (.sequence p)
      | .flowMappingStart => (flowPairs c l.mark fuel true ts).within (.mapping p)
      | t =>
        if indentless && t = .blockEntry then
          (indentlessItems c fuel (l :: ts)).within (.sequence p)
        else if block && t = .blockSequenceStart then
          (blockItems c l.mark fuel ts).within (.sequence p)
        else if block && t = .blockMappingStart then
          (blockPairs c l.mark fuel ts).within (.mapping p)
        else if p.any then .one (.scalar p true []) (l :: ts)
        else .wrong .noContent l.mark (if block then .blockNode else .flowNode) p.mark

/-- The items of a block sequence, up to its end. -/
def blockItems (c : Setting) (start : Mark) : Nat → List Lexeme → Parsed
  | 0, _ => .fail .endOfText
  | fuel + 1, ⟨.blockEntry, _⟩ :: ts =>
    (nodeOrEmpty (leavesBlockItem ts) (node c true false fuel) ts).andThen
      (blockItems c start fuel)
  | _ + 1, ⟨.blockEnd, _⟩ :: ts => .nothing ts
  | _ + 1, l :: _ => .wrong .noHyphen l.mark .blockSequence start
  | _ + 1, [] => .fail c.stop

/-- The items of a sequence without a block of its own. -/
def indentlessItems (c : Setting) : Nat → List Lexeme → Parsed
  | 0, _ => .fail .endOfText
  | fuel + 1, ⟨.blockEntry, _⟩ :: ts =>
    (nodeOrEmpty (leavesIndentlessItem ts) (node c true false fuel) ts).andThen
      (indentlessItems c fuel)
  | _ + 1, l :: ts => .nothing (l :: ts)
  | _ + 1, [] => .fail c.stop

/-- The keys and values of a block mapping, up to its end. -/
def blockPairs (c : Setting) (start : Mark) : Nat → List Lexeme → Parsed
  | 0, _ => .fail .endOfText
  | fuel + 1, ⟨.key, _⟩ :: ts =>
    ((nodeOrEmpty (leavesBlockNode ts) (node c true true fuel) ts).andThen
      (valueOrEmpty c leavesBlockNode (node c true true fuel))).andThen
        (blockPairs c start fuel)
  | _ + 1, ⟨.blockEnd, _⟩ :: ts => .nothing ts
  | _ + 1, l :: _ => .wrong .noKey l.mark .blockMapping start
  | _ + 1, [] => .fail c.stop

/-- The items of a sequence in brackets, up to its end. A pair among them is a mapping of its
own. -/
def flowItems (c : Setting) (start : Mark) : Nat → Bool → List Lexeme → Parsed
  | 0, _, _ => .fail .endOfText
  | _ + 1, _, ⟨.flowSequenceEnd, _⟩ :: ts => .nothing ts
  | _ + 1, _, [] => .fail c.stop
  | fuel + 1, first, ts =>
    (afterComma .noCommaOrBracket .flowSequence start first ts).andThen fun
      | ⟨.flowSequenceEnd, _⟩ :: ts => .nothing ts
      | ⟨.key, m⟩ :: ts =>
        ((flowPair c fuel ts).within (.mapping ⟨none, none, m⟩)).andThen
          (flowItems c start fuel false)
      | ts => (node c false false fuel ts).andThen (flowItems c start fuel false)

/-- A pair among the items of a sequence in brackets, after its key token. Where the key is left
out, so is the token after it. -/
def flowPair (c : Setting) : Nat → List Lexeme → Parsed
  | 0, _ => .fail .endOfText
  | fuel + 1, ts =>
    let key :=
      if leavesFlowNode .flowSequenceEnd ts || leavesFlowNode .value ts then
        .one .empty (ts.drop 1)
      else node c false false fuel ts
    (key.andThen
      (valueOrEmpty c (leavesFlowNode .flowSequenceEnd) (node c false false fuel))).andThen
        fun
          | [] => .fail c.stop
          | ts => .nothing ts

/-- The keys and values of a mapping in braces, up to its end. -/
def flowPairs (c : Setting) (start : Mark) : Nat → Bool → List Lexeme → Parsed
  | 0, _, _ => .fail .endOfText
  | _ + 1, _, ⟨.flowMappingEnd, _⟩ :: ts => .nothing ts
  | _ + 1, _, [] => .fail c.stop
  | fuel + 1, first, ts =>
    (afterComma .noCommaOrBrace .flowMapping start first ts).andThen fun
      | ⟨.flowMappingEnd, _⟩ :: ts => .nothing ts
      | ⟨.key, _⟩ :: ts =>
        let leftOut := leavesFlowNode .flowMappingEnd ts || leavesFlowNode .value ts
        ((nodeOrEmpty leftOut (node c false false fuel) ts).andThen
          (valueOrEmpty c (leavesFlowNode .flowMappingEnd) (node c false false fuel))).andThen
            (flowPairs c start fuel false)
      | ts =>
        ((node c false false fuel ts).andThen fun
          | [] => .fail c.stop
          | ts => .one .empty ts).andThen (flowPairs c start fuel false)

end

/-! ### Documents -/

/-- The handles that the directives in front of a document declare, and the tokens after them. The
flag says whether a version was among those read. -/
def directives (stop : Error) : Bool → Handles → List Lexeme →
    Except Error (Handles × List Lexeme)
  | versioned, handles, ⟨.directive (.version major minor), m⟩ :: ts =>
    if versioned then .error (.malformed ⟨.repeatedVersion, m, none⟩)
    else if major ≠ 1 ∨ (minor ≠ 1 ∧ minor ≠ 2) then
      .error (.malformed ⟨.foreignVersion, m, none⟩)
    else directives stop true handles ts
  | versioned, handles, ⟨.directive (.tag handle stem), m⟩ :: ts =>
    if handles.any (·.1 == handle) then .error (.malformed ⟨.repeatedHandle, m, none⟩)
    else directives stop versioned (handles ++ [(handle, stem)]) ts
  | _, _, [] => .error stop
  | _, handles, ts => .ok (handles ++ defaultHandles, ts)

/-- A token that leaves a document without content. -/
def leavesDocument : List Lexeme → Bool
  | ⟨.directive _, _⟩ :: _ => true
  | ⟨.documentStart, _⟩ :: _ => true
  | ⟨.documentEnd, _⟩ :: _ => true
  | ⟨.streamEnd, _⟩ :: _ => true
  | _ => false

/-- A document whose start is marked. -/
def markedDocument (stop : Error) (ts : List Lexeme) : Parsed :=
  match directives stop false [] ts with
  | .error e => .fail e
  | .ok (handles, ⟨.documentStart, _⟩ :: ts) =>
    nodeOrEmpty (leavesDocument ts) (node ⟨handles, stop⟩ true false (2 * ts.length + 2)) ts
  | .ok (_, l :: _) => .fail (.malformed ⟨.noDocumentStart, l.mark, none⟩)
  | .ok (_, []) => .fail stop

/-- The tokens after the end of a document, which may be marked. -/
def documentEnd (stop : Error) : List Lexeme → Parsed
  | [] => .fail stop
  | ⟨.documentEnd, _⟩ :: ts => .nothing ts
  | ts => .nothing ts

/-- The first document of a text, if it has any: at most one node. -/
def firstDocument? (tokens : Tokens) : Option Parsed :=
  let stop := tokens.stop
  match tokens.lexemes with
  | ⟨.streamEnd, _⟩ :: _ => none
  | ts =>
    let document := match ts with
      | ⟨.directive _, _⟩ :: _ => markedDocument stop ts
      | ⟨.documentStart, _⟩ :: _ => markedDocument stop ts
      | ts => node ⟨defaultHandles, stop⟩ true false (2 * ts.length + 2) ts
    some (document.andThen (documentEnd stop))

/-- Nothing but ends of the document is left. -/
def onlyEnds (ts : List Lexeme) : Bool :=
  (ts.dropWhile (·.token = .documentEnd)).head?.any (·.token = .streamEnd)

end Yaml

end SealedLedger
