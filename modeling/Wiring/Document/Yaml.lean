import Wiring.Document.Yaml.Meaning
import Wiring.Document.Yaml.Token

/-!
# YAML

Reading YAML: one document, whose anchors are replaced by what they stand for. Collections nest at
most 128 deep, and aliases may not blow a document up without bound.
-/

namespace Wiring.Document.Yaml

/-- A node as it is put together: how deep it nests, and how many aliases reading it follows. -/
structure Built where
  node : Node
  depth : Nat := 0
  aliases : Nat := 0
deriving Inhabited

/-- What is known while a document is put together: the tag handles, the finished anchors, and the
number of nodes. -/
structure Build where
  handles : List (String × String) := []
  anchors : List (String × Built) := []
  nodes : Nat := 0
deriving Inhabited

namespace Build

/-- The handles that every document knows. -/
def presetHandles : List (String × String) := [("!", "!"), ("!!", coreTag)]

/-- The tag that a handle and a suffix stand for. -/
def resolve? (b : Build) (handle suffix : String) : Option String :=
  if handle.isEmpty then some suffix
  else ((b.handles ++ presetHandles).lookup handle).map (· ++ suffix)

/-- Count a node, and remember it under its anchor. -/
def finish (b : Build) (anchor? : Option String) (n : Built) : Build :=
  { b with
    nodes := b.nodes + 1
    anchors :=
      match anchor? with
      | some name => (name, n) :: b.anchors
      | none => b.anchors }

end Build

/-- The empty plain scalar, which stands where a node is missing. -/
def missing : Built := { node := .loose "" (some .null) }

/-- A collection of nodes. -/
def collect (tag? : Option String) (parts : List Built) (make : List Node → Node) : Built :=
  let n := make (parts.map (·.node))
  let node :=
    match tag?.map String.toList with
    | some ('!' :: name) => .tagged (String.ofList name) n
    | _ => n
  { node
    depth := parts.foldl (fun d p => max d p.depth) 0 + 1
    aliases := (parts.map (·.aliases)).foldl (· + ·) 0 }

/-- A record of keys and values, alternating. A key must have a text. -/
def collectRecord? (tag? : Option String) (pairs : List (Built × Built)) : Option Built := do
  let names ← pairs.mapM fun (k, _) => k.node.text?
  let built := collect tag? (pairs.map (·.2)) fun values => .record (names.zip values)
  pure { built with aliases := built.aliases + (pairs.map (·.1.aliases)).foldl (· + ·) 0 }

/-- The properties in front of a node: an anchor and a tag, in either order. -/
def properties : List Token → Option String × Option (String × String) × List Token
  | .anchor a :: .tag h s :: rest => (some a, some (h, s), rest)
  | .tag h s :: .anchor a :: rest => (some a, some (h, s), rest)
  | .anchor a :: rest => (some a, none, rest)
  | .tag h s :: rest => (none, some (h, s), rest)
  | rest => (none, none, rest)

/-- What a step of the reader gives: what it read, and what is left. -/
abbrev Stepped (α : Type) := α × Build × List Token

mutual

/-- Read a node. In a block a collection may start by indentation, and after a key a sequence may
start without it. -/
def node : Nat → Bool → Bool → Build → List Token → Option (Stepped Built)
  | 0, _, _, _, _ => none
  | bound + 1, inBlock, afterKey, b, ts =>
    match ts with
    | .alias name :: rest => do
      let n ← b.anchors.lookup name
      pure ({ n with aliases := n.aliases + 1 }, { b with nodes := b.nodes + 1 }, rest)
    | ts => do
      let (anchor?, tagPart?, rest) := properties ts
      let tag? ← match tagPart? with
        | none => some none
        | some (h, s) => (b.resolve? h s).map some
      let done (n : Built) (b : Build) (rest : List Token) : Option (Stepped Built) :=
        some (n, b.finish anchor? n, rest)
      match rest with
      | .scalar text style :: rest =>
        let node :=
          match tag?, style with
          | some tag, style => typed tag (style == .plain) text
          | none, .plain => .loose text (some (meaning text))
          | none, .other => Node.text text
        done { node } b rest
      | .flowSequenceStart :: rest => do
        let (items, b, rest) ← flowItems bound true [] b rest
        done (collect tag? items .list) b rest
      | .flowMappingStart :: rest => do
        let (pairs, b, rest) ← flowPairs bound true [] b rest
        let n ← collectRecord? tag? pairs
        done n b rest
      | .blockSequenceStart :: rest => do
        if !inBlock then none
        else
          let (items, b, rest) ← blockItems bound [] b rest
          done (collect tag? items .list) b rest
      | .blockMappingStart :: rest => do
        if !inBlock then none
        else
          let (pairs, b, rest) ← blockPairs bound [] b rest
          let n ← collectRecord? tag? pairs
          done n b rest
      | .blockEntry :: more =>
        if afterKey then do
          let (items, b, rest) ← looseItems bound [] b (.blockEntry :: more)
          done (collect tag? items .list) b rest
        else if anchor?.isSome || tag?.isSome then done (emptyOf tag?) b (.blockEntry :: more)
        else none
      | rest =>
        if anchor?.isSome || tag?.isSome then done (emptyOf tag?) b rest else none
where
  /-- An empty scalar with a tag. -/
  emptyOf (tag? : Option String) : Built :=
    match tag? with
    | some tag => { node := typed tag true "" }
    | none => missing

/-- A node, or the empty one where another token follows. -/
def nodeUnless : Nat → List Token → Bool → Bool → Build → List Token → Option (Stepped Built)
  | 0, _, _, _, _, _ => none
  | bound + 1, stops, inBlock, afterKey, b, ts =>
    if ts.head?.all stops.contains then some (missing, { b with nodes := b.nodes + 1 }, ts)
    else node bound inBlock afterKey b ts

/-- The items of a block sequence. -/
def blockItems : Nat → List Built → Build → List Token → Option (Stepped (List Built))
  | 0, _, _, _ => none
  | bound + 1, seen, b, ts =>
    match ts with
    | .blockEntry :: rest => do
      let (n, b, rest) ← nodeUnless bound [.blockEntry, .blockEnd] true false b rest
      blockItems bound (n :: seen) b rest
    | .blockEnd :: rest => some (seen.reverse, b, rest)
    | _ => none

/-- The items of a sequence without indentation of its own. -/
def looseItems : Nat → List Built → Build → List Token → Option (Stepped (List Built))
  | 0, _, _, _ => none
  | bound + 1, seen, b, ts =>
    match ts with
    | .blockEntry :: rest => do
      let (n, b, rest) ← nodeUnless bound [.blockEntry, .key, .value, .blockEnd] true false b rest
      looseItems bound (n :: seen) b rest
    | ts => some (seen.reverse, b, ts)

/-- The pairs of a block mapping. -/
def blockPairs : Nat → List (Built × Built) → Build → List Token →
    Option (Stepped (List (Built × Built)))
  | 0, _, _, _ => none
  | bound + 1, seen, b, ts =>
    match ts with
    | .key :: rest => do
      let (k, b, rest) ← nodeUnless bound [.key, .value, .blockEnd] true true b rest
      match rest with
      | .value :: rest => do
        let (v, b, rest) ← nodeUnless bound [.key, .value, .blockEnd] true true b rest
        blockPairs bound ((k, v) :: seen) b rest
      | rest => blockPairs bound ((k, missing) :: seen) b rest
    | .blockEnd :: rest => some (seen.reverse, b, rest)
    | _ => none

/-- The items of a flow sequence. A pair among them is a mapping of its own. -/
def flowItems : Nat → Bool → List Built → Build → List Token → Option (Stepped (List Built))
  | 0, _, _, _, _ => none
  | bound + 1, isFirst, seen, b, ts =>
    match ts with
    | .flowSequenceEnd :: rest => some (seen.reverse, b, rest)
    | ts => do
      let ts ← if isFirst then some ts else
        match ts with
        | .flowEntry :: rest => some rest
        | _ => none
      match ts with
      | .flowSequenceEnd :: rest => pure (seen.reverse, b, rest)
      | .key :: rest => do
        let stops := [Token.value, .flowEntry, .flowSequenceEnd]
        let isEmpty := rest.head?.any stops.contains
        let (k, b, rest) ← nodeUnless bound stops false false b rest
        let rest := if isEmpty then rest.drop 1 else rest
        let (v, b, rest) ← match rest with
          | .value :: rest =>
            nodeUnless bound [.flowEntry, .flowSequenceEnd] false false b rest
          | rest => some (missing, b, rest)
        let n ← collectRecord? none [(k, v)]
        flowItems bound false (n :: seen) { b with nodes := b.nodes + 1 } rest
      | ts => do
        let (n, b, rest) ← node bound false false b ts
        flowItems bound false (n :: seen) b rest

/-- The pairs of a flow mapping. A key on its own has an empty value. -/
def flowPairs : Nat → Bool → List (Built × Built) → Build → List Token →
    Option (Stepped (List (Built × Built)))
  | 0, _, _, _, _ => none
  | bound + 1, isFirst, seen, b, ts =>
    match ts with
    | .flowMappingEnd :: rest => some (seen.reverse, b, rest)
    | ts => do
      let ts ← if isFirst then some ts else
        match ts with
        | .flowEntry :: rest => some rest
        | _ => none
      match ts with
      | .flowMappingEnd :: rest => pure (seen.reverse, b, rest)
      | .key :: rest => do
        let (k, b, rest) ←
          nodeUnless bound [.value, .flowEntry, .flowMappingEnd] false false b rest
        match rest with
        | .value :: rest => do
          let (v, b, rest) ← nodeUnless bound [.flowEntry, .flowMappingEnd] false false b rest
          flowPairs bound false ((k, v) :: seen) b rest
        | rest => flowPairs bound false ((k, missing) :: seen) b rest
      | ts => do
        let (k, b, rest) ← node bound false false b ts
        flowPairs bound false ((k, missing) :: seen) b rest

end

/-- Read the directives in front of a document. There is at most one version, which is 1.1 or 1.2,
and every handle is given once. -/
def directives : List (String × String) → Bool → List Token →
    Option (List (String × String) × List Token)
  | handles, hasVersion, .version major minor :: rest =>
    if hasVersion || major != 1 || (minor != 1 && minor != 2) then none
    else directives handles true rest
  | handles, hasVersion, .tagHandle handle start :: rest =>
    if (handles.lookup handle).isSome then none
    else directives ((handle, start) :: handles) hasVersion rest
  | handles, _, rest => some (handles, rest)

/-- Does a token come before the content of a document? -/
def isDirective : Token → Bool
  | .version .. => true
  | .tagHandle .. => true
  | _ => false

/-- Read the content of the only document; nothing may follow it but its end. -/
def document? (ts : List Token) : Option (Built × Build) := do
  let bound := 4 * ts.length + 4
  let (n, b, rest) ←
    match ts with
    | [] => some (missing, {}, [])
    | t :: _ =>
      if isDirective t || t == .documentStart then do
        let (handles, rest) ← directives [] false ts
        let b : Build := { handles }
        match rest with
        | .documentStart :: rest =>
          if rest.head?.all fun t => isDirective t || t == .documentStart || t == .documentEnd
          then pure (missing, b, rest)
          else node bound true false b rest
        | _ => none
      else node bound true false {} ts
  if rest.all (· == .documentEnd) then pure (n, b) else none

/-- How deep collections may nest. -/
def nesting : Nat := 128

/-- How often aliases may be followed, for each node of the document. -/
def aliasFactor : Nat := 100

/-- Read a document. Each step of the reader takes a token or is followed by one that does. -/
def parse? (text : String) : Option Node := do
  let ts ← tokens? text.toList
  let (n, b) ← document? ts
  if n.depth ≤ nesting && n.aliases ≤ aliasFactor * b.nodes then pure n.node else none

end Wiring.Document.Yaml
