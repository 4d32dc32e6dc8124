import TopologyConfig.Yaml.Tag
import TopologyConfig.Yaml.Token

/-!
The nodes of a YAML document: scalars, sequences and mappings with their tags. An alias is read as the
node that its anchor names, and no anchor may be set twice. With an alias within the node of its own anchor
a document would contain itself; no node does, so such a document has a fault of its own.
-/
namespace TopologyConfig.Yaml

inductive Node where
  | scalar (tag : Tag) (text : String)
  | sequence (tag : Tag) (items : List Node)
  | mapping (tag : Tag) (entries : List (Node × Node))

namespace Node

def absent : Node := scalar .null ""

end Node

structure NodeReader where
  tokens : List Token
  /-- Why there are no more tokens than these. -/
  fault : Option Fault
  handles : List (String × String)
  /-- The nodes of the anchors; none for an anchor whose node is still being read. -/
  anchors : List (String × Option Node)
  /-- An alias has been read within the node of its own anchor. -/
  recursive : Bool

namespace NodeReader

def standardHandles : List (String × String) := [("!", "!"), ("!!", Tag.standardStart)]

def peek (r : NodeReader) : Except Fault Token :=
  match r.tokens with
  | t :: _ => .ok t
  | [] => .error (r.fault.getD .malformed)

def next (r : NodeReader) : NodeReader := { r with tokens := r.tokens.drop 1 }

structure Properties where
  anchor : Option String
  tag : Option String

namespace Properties

def isEmpty (p : Properties) : Bool := p.anchor.isNone && p.tag.isNone

/-- The text of a plain scalar, or of any scalar whose tag is a lone mark, decides about its tag. -/
def scalarTag (p : Properties) (plain : Bool) (text : String) : Tag :=
  match p.tag with
  | none => if plain then Tag.ofPlain text else .str
  | some name => if name == "!" then Tag.ofPlain text else Tag.ofName name

def collectionTag (p : Properties) (usual : Tag) : Tag :=
  match p.tag with
  | none => usual
  | some name => if name == "!" then usual else Tag.ofName name

end Properties

def anchor (r : NodeReader) : Except Fault (Option String × NodeReader) := do
  match ← r.peek with
  | .anchor name => pure (some name, r.next)
  | _ => pure (none, r)

def tag (r : NodeReader) : Except Fault (Option (Option String × String) × NodeReader) := do
  match ← r.peek with
  | .tag handle suffix => pure (some (handle, suffix), r.next)
  | _ => pure (none, r)

def fullTag (r : NodeReader) : Option (Option String × String) → Except Fault (Option String)
  | none => .ok none
  | some (none, suffix) => .ok (some suffix)
  | some (some handle, suffix) =>
    match r.handles.lookup handle with
    | some start => .ok (some (start ++ suffix))
    | none => .error .malformed

def properties (r : NodeReader) : Except Fault (Properties × NodeReader) := do
  let (first, r) ← r.anchor
  let (t, r) ← r.tag
  let (a, r) ← if first.isSome || t.isNone then pure (first, r) else r.anchor
  pure (⟨a, ← r.fullTag t⟩, r)

def openAnchor (r : NodeReader) : Option String → Except Fault NodeReader
  | none => .ok r
  | some name =>
    if (r.anchors.lookup name).isSome then .error .malformed
    else .ok { r with anchors := (name, none) :: r.anchors }

def closeAnchor (r : NodeReader) (name : Option String) (n : Node) : NodeReader :=
  match name with
  | none => r
  | some name => { r with anchors := (name, some n) :: r.anchors }

/-- Reads an alias. One within the node of its own anchor is noted, and the reading goes on. -/
def aliased (r : NodeReader) (name : String) : Except Fault (Node × NodeReader) :=
  match r.anchors.lookup name with
  | some (some n) => .ok (n, r.next)
  | some none => .ok (Node.absent, { r.next with recursive := true })
  | none => .error .malformed

mutual

/-- Reads a node. Block collections are nodes only in the block context, and a sequence that is not
indented only within a mapping. -/
def readNode (block indentless : Bool) : Nat → NodeReader → Except Fault (Node × NodeReader)
  | 0, _ => .error .malformed
  | fuel + 1, r => do
    match ← r.peek with
    | .alias name => r.aliased name
    | _ =>
      let (p, r) ← r.properties
      match ← r.peek with
      | .scalar plain text =>
        let r ← r.openAnchor p.anchor
        let n := Node.scalar (p.scalarTag plain text) text
        pure (n, r.next.closeAnchor p.anchor n)
      | .flowSequenceStart =>
        let r ← r.openAnchor p.anchor
        let (items, r) ← readFlowItems true fuel r.next
        let n := Node.sequence (p.collectionTag .seq) items
        pure (n, r.closeAnchor p.anchor n)
      | .flowMappingStart =>
        let r ← r.openAnchor p.anchor
        let (entries, r) ← readFlowEntries true fuel r.next
        let n := Node.mapping (p.collectionTag .map) entries
        pure (n, r.closeAnchor p.anchor n)
      | t =>
        if t == .blockEntry && indentless then do
          let r ← r.openAnchor p.anchor
          let (items, r) ← readIndentlessItems fuel r
          let n := Node.sequence (p.collectionTag .seq) items
          pure (n, r.closeAnchor p.anchor n)
        else if t == .blockSequenceStart && block then do
          let r ← r.openAnchor p.anchor
          let (items, r) ← readBlockItems fuel r.next
          let n := Node.sequence (p.collectionTag .seq) items
          pure (n, r.closeAnchor p.anchor n)
        else if t == .blockMappingStart && block then do
          let r ← r.openAnchor p.anchor
          let (entries, r) ← readBlockEntries fuel r.next
          let n := Node.mapping (p.collectionTag .map) entries
          pure (n, r.closeAnchor p.anchor n)
        else if p.isEmpty then .error .malformed
        else do
          let r ← r.openAnchor p.anchor
          let n := Node.scalar (p.scalarTag true "") ""
          pure (n, r.closeAnchor p.anchor n)

def readUnless (block indentless : Bool) (stops : List Token) :
    Nat → NodeReader → Except Fault (Node × NodeReader)
  | 0, _ => .error .malformed
  | fuel + 1, r => do
    if stops.contains (← r.peek) then pure (Node.absent, r) else readNode block indentless fuel r

def readBlockItems : Nat → NodeReader → Except Fault (List Node × NodeReader)
  | 0, _ => .error .malformed
  | fuel + 1, r => do
    match ← r.peek with
    | .blockEntry =>
      let (n, r) ← readUnless true false [.blockEntry, .blockEnd] fuel r.next
      let (ns, r) ← readBlockItems fuel r
      pure (n :: ns, r)
    | .blockEnd => pure ([], r.next)
    | _ => .error .malformed

def readIndentlessItems : Nat → NodeReader → Except Fault (List Node × NodeReader)
  | 0, _ => .error .malformed
  | fuel + 1, r => do
    match ← r.peek with
    | .blockEntry =>
      let (n, r) ← readUnless true false [.blockEntry, .key, .value, .blockEnd] fuel r.next
      let (ns, r) ← readIndentlessItems fuel r
      pure (n :: ns, r)
    | _ => pure ([], r)

def readBlockEntries : Nat → NodeReader → Except Fault (List (Node × Node) × NodeReader)
  | 0, _ => .error .malformed
  | fuel + 1, r => do
    match ← r.peek with
    | .blockEnd => pure ([], r.next)
    | .key =>
      let (k, r) ← readUnless true true [.key, .value, .blockEnd] fuel r.next
      let (v, r) ← readBlockValue fuel r
      let (es, r) ← readBlockEntries fuel r
      pure ((k, v) :: es, r)
    | _ => .error .malformed

def readBlockValue : Nat → NodeReader → Except Fault (Node × NodeReader)
  | 0, _ => .error .malformed
  | fuel + 1, r => do
    if (← r.peek) == .value then readUnless true true [.key, .value, .blockEnd] fuel r.next
    else pure (Node.absent, r)

def readFlowEntry (close : Token) : Nat → NodeReader → Except Fault (Node × Node × NodeReader)
  | 0, _ => .error .malformed
  | fuel + 1, r => do
    let (k, r) ← readUnless false false [.value, .flowEntry, close] fuel r.next
    if (← r.peek) == .value then do
      let (v, r) ← readUnless false false [.flowEntry, close] fuel r.next
      pure (k, v, r)
    else pure (k, Node.absent, r)

def readFlowItems (first : Bool) : Nat → NodeReader → Except Fault (List Node × NodeReader)
  | 0, _ => .error .malformed
  | fuel + 1, r => do
    let t ← r.peek
    if t == .flowSequenceEnd then pure ([], r.next)
    else if !first && t != .flowEntry then .error .malformed
    else
      let r := if first then r else r.next
      match ← r.peek with
      | .flowSequenceEnd => pure ([], r.next)
      | .key =>
        let (k, v, r) ← readFlowEntry .flowSequenceEnd fuel r
        let (ns, r) ← readFlowItems false fuel r
        pure (Node.mapping .map [(k, v)] :: ns, r)
      | _ =>
        let (n, r) ← readNode false false fuel r
        let (ns, r) ← readFlowItems false fuel r
        pure (n :: ns, r)

def readFlowEntries (first : Bool) : Nat → NodeReader → Except Fault (List (Node × Node) × NodeReader)
  | 0, _ => .error .malformed
  | fuel + 1, r => do
    let t ← r.peek
    if t == .flowMappingEnd then pure ([], r.next)
    else if !first && t != .flowEntry then .error .malformed
    else
      let r := if first then r else r.next
      match ← r.peek with
      | .flowMappingEnd => pure ([], r.next)
      | .key =>
        let (k, v, r) ← readFlowEntry .flowMappingEnd fuel r
        let (es, r) ← readFlowEntries false fuel r
        pure ((k, v) :: es, r)
      | _ =>
        let (k, r) ← readNode false false fuel r
        let (es, r) ← readFlowEntries false fuel r
        pure ((k, Node.absent) :: es, r)

end

def root (r : NodeReader) : Except Fault (Node × NodeReader) :=
  readNode true false (4 * r.tokens.length + 8) r

def skipEnds (r : NodeReader) : NodeReader :=
  { r with tokens := r.tokens.dropWhile (· == .documentEnd) }

def readDirectives : List Token → Bool → List (String × String) →
    Except Fault (List (String × String) × List Token)
  | .version major :: ts, seen, handles =>
    if seen || major != 1 then .error .malformed else readDirectives ts true handles
  | .tagHandle handle start :: ts, seen, handles =>
    if (handles.lookup handle).isSome then .error .malformed
    else readDirectives ts seen ((handle, start) :: handles)
  | .ignoredDirective :: ts, seen, handles => readDirectives ts seen handles
  | ts, _, handles => .ok (handles, ts)

def markedRoot (r : NodeReader) : Except Fault (Node × NodeReader) := do
  match ← r.peek with
  | .version _ => pure (Node.absent, r)
  | .tagHandle _ _ => pure (Node.absent, r)
  | .ignoredDirective => pure (Node.absent, r)
  | .documentStart => pure (Node.absent, r)
  | .documentEnd => pure (Node.absent, r)
  | .streamEnd => pure (Node.absent, r)
  | _ => r.root

def begin (r : NodeReader) : Except Fault NodeReader := do
  let (handles, tokens) ← readDirectives r.tokens false []
  let r := { r with tokens := tokens, handles := handles ++ standardHandles }
  if (← r.peek) == .documentStart then pure r.next else .error .malformed

def markedDocument (r : NodeReader) : Except Fault (Option Node × NodeReader) := do
  let r := r.skipEnds
  if (← r.peek) == .streamEnd then pure (none, r)
  else
    let (n, r) ← (← r.begin).markedRoot
    pure (some n, r)

def document (r : NodeReader) : Except Fault (Option Node × NodeReader) := do
  let bare : Except Fault (Option Node × NodeReader) := do
    let (n, r) ← r.root
    pure (some n, r)
  match ← r.peek with
  | .version _ => r.markedDocument
  | .tagHandle _ _ => r.markedDocument
  | .ignoredDirective => r.markedDocument
  | .documentStart => r.markedDocument
  | .streamEnd => r.markedDocument
  | _ => bare

end NodeReader

namespace NodeReader

def ofStream (s : TokenStream) : NodeReader := ⟨s.tokens, s.fault, standardHandles, [], false⟩

/-- The reader has come to the end of the only document. The beginning of a second one is read before it is
refused. -/
def ensureEnd (r : NodeReader) : Except Fault Unit := do
  if (← r.peek) == .streamEnd then pure ()
  else do
    let _ ← r.begin
    .error .malformed

end NodeReader

/-- The node of the only document in a stream of tokens; there is none in an empty stream. Everything else that
is wrong with the document comes before its containing itself. -/
def Node.ofTokens (s : TokenStream) : Except Fault (Option Node) := do
  let (n, r) ← (NodeReader.ofStream s).document
  r.skipEnds.ensureEnd
  if r.recursive then .error .recursive else pure n

end TopologyConfig.Yaml
