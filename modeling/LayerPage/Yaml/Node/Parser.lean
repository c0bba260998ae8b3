/-
From tokens to the nodes of a YAML text. A text holds one document or none. In front of its node a
document may have directives, which say what the handles of tags stand for.
-/
import LayerPage.Yaml.Node

namespace LayerPage.Yaml

/-- The name of an anchor as it is written. -/
abbrev AnchorName := List Char

/-- What the handles of tags stand for. -/
abbrev Handles := List (List Char × List Char)

/-- The handles that need no directive. -/
def Handles.standard : Handles :=
  [("!".toList, "!".toList), ("!!".toList, "tag:yaml.org,2002:".toList)]

/-- The whole tag of a handle and a suffix. -/
def Handles.tag? (handles : Handles) (handle suffix : List Char) : Option (List Char) :=
  if handle.isEmpty then some suffix
  else (handles.lookup handle).map (· ++ suffix)

-- ====================================================================== nodes

namespace Node

/-- What may stand in front of a node. -/
structure Properties where
  anchor? : Option AnchorName := none
  tag? : Option (List Char) := none

/-- Read an anchor and a tag in either order, or one of them, or none. -/
def properties? (handles : Handles) : List Token → Option (Properties × List Token)
  | .anchor name :: .tag handle suffix :: rest
  | .tag handle suffix :: .anchor name :: rest =>
    (handles.tag? handle suffix).map fun tag => ({ anchor? := some name, tag? := some tag }, rest)
  | .tag handle suffix :: rest =>
    (handles.tag? handle suffix).map fun tag => ({ tag? := some tag }, rest)
  | .anchor name :: rest => some ({ anchor? := some name }, rest)
  | ts => some ({}, ts)

/-- Whether the next token is one of some. -/
def startsWith (stops : List Token) (ts : List Token) : Bool :=
  ts.head?.any stops.contains

/-- The tokens that follow an item that is left out: in a block sequence, in one that is not indented,
in a block mapping, in brackets and in braces. -/
def itemStops : List Token := [.blockEntry, .blockEnd]

@[inherit_doc itemStops]
def flatItemStops : List Token := [.blockEntry, .key, .value, .blockEnd]

@[inherit_doc itemStops]
def entryStops : List Token := [.key, .value, .blockEnd]

@[inherit_doc itemStops]
def bracketStops : List Token := [.flowEntry, .flowSequenceEnd]

@[inherit_doc itemStops]
def braceStops : List Token := [.flowEntry, .flowMappingEnd]

/-- The tag of a scalar; a `!` alone is none. -/
def scalarTag? (tag? : Option (List Char)) : Option (List Char) :=
  tag?.filter (· != ['!'])

/-- In brackets and braces, the comma before every item but the first one. -/
def comma? (first : Bool) (ts : List Token) : Option (List Token) :=
  if first then some ts
  else
    match ts with
    | .flowEntry :: ts => some ts
    | _ => none

mutual

/-- Read a node. `block` says whether it may be an indented block, and `flat` whether a sequence need
not be indented. The first argument of this reader and the following ones bounds the number of nested
calls. -/
def read (handles : Handles) : Nat → (block flat : Bool) → List Token →
    Option (Node AnchorName × List Token)
  | 0, _, _, _ => none
  | _ + 1, _, _, .alias name :: rest => some (.alias name, rest)
  | fuel + 1, block, flat, ts => do
    let (props, rest) ← properties? handles ts
    match rest with
    | .scalar text style :: rest =>
      return (.scalar props.anchor? (scalarTag? props.tag?) text style, rest)
    | .flowSequenceStart :: rest =>
      let (items, rest) ← readBracketItems handles fuel true rest
      return (.sequence props.anchor? items, rest)
    | .flowMappingStart :: rest =>
      let (entries, rest) ← readBraceEntries handles fuel true rest
      return (.mapping props.anchor? entries, rest)
    | rest =>
      if flat && startsWith [.blockEntry] rest then
        let (items, rest) ← readFlatItems handles fuel rest
        return (.sequence props.anchor? items, rest)
      else if block && startsWith [.blockSequenceStart] rest then
        let (items, rest) ← readItems handles fuel (rest.drop 1)
        return (.sequence props.anchor? items, rest)
      else if block && startsWith [.blockMappingStart] rest then
        let (entries, rest) ← readEntries handles fuel (rest.drop 1)
        return (.mapping props.anchor? entries, rest)
      else if props.anchor?.isSome || props.tag?.isSome then
        return (.scalar props.anchor? props.tag? [] .plain, rest)
      else none

/-- Read a node, which may be left out before some tokens. -/
def readUnless (handles : Handles) : Nat → (stops : List Token) → (block flat : Bool) →
    List Token → Option (Node AnchorName × List Token)
  | 0, _, _, _, _ => none
  | fuel + 1, stops, block, flat, ts =>
    if startsWith stops ts then some (.empty, ts) else read handles fuel block flat ts

/-- Read the value of an entry, which may be left out with its mark. -/
def readValue (handles : Handles) : Nat → (stops : List Token) → (block flat : Bool) →
    List Token → Option (Node AnchorName × List Token)
  | fuel + 1, stops, block, flat, .value :: rest =>
    readUnless handles fuel stops block flat rest
  | _, _, _, _, ts => some (.empty, ts)

/-- Read the items of a block sequence up to its end. -/
def readItems (handles : Handles) : Nat → List Token →
    Option (List (Node AnchorName) × List Token)
  | fuel + 1, .blockEntry :: rest => do
    let (item, rest) ← readUnless handles fuel itemStops true false rest
    let (items, rest) ← readItems handles fuel rest
    return (item :: items, rest)
  | _, .blockEnd :: rest => some ([], rest)
  | _, _ => none

/-- Read the items of a block sequence that is not indented, and so has no end mark. -/
def readFlatItems (handles : Handles) : Nat → List Token →
    Option (List (Node AnchorName) × List Token)
  | fuel + 1, .blockEntry :: rest => do
    let (item, rest) ← readUnless handles fuel flatItemStops true false rest
    let (items, rest) ← readFlatItems handles fuel rest
    return (item :: items, rest)
  | _, rest => some ([], rest)

/-- Read the entries of a block mapping up to its end. -/
def readEntries (handles : Handles) : Nat → List Token →
    Option (List (Node AnchorName × Node AnchorName) × List Token)
  | fuel + 1, .key :: rest => do
    let (key, rest) ← readUnless handles fuel entryStops true true rest
    let (value, rest) ← readValue handles fuel entryStops true true rest
    let (entries, rest) ← readEntries handles fuel rest
    return ((key, value) :: entries, rest)
  | _, .blockEnd :: rest => some ([], rest)
  | _, _ => none

/-- Read the items between brackets up to the closing one. An item may be a mapping of one entry; if
the key of that is left out, so is the token behind it. -/
def readBracketItems (handles : Handles) : Nat → (first : Bool) → List Token →
    Option (List (Node AnchorName) × List Token)
  | 0, _, _ => none
  | _ + 1, _, .flowSequenceEnd :: rest => some ([], rest)
  | fuel + 1, first, ts => do
    match ← comma? first ts with
    | .flowSequenceEnd :: rest => return ([], rest)
    | .key :: rest =>
      let (key, rest) ←
        if startsWith (.value :: bracketStops) rest then some (.empty, rest.drop 1)
        else read handles fuel false false rest
      let (value, rest) ← readValue handles fuel bracketStops false false rest
      let (items, rest) ← readBracketItems handles fuel false rest
      return (.mapping none [(key, value)] :: items, rest)
    | ts =>
      let (item, rest) ← read handles fuel false false ts
      let (items, rest) ← readBracketItems handles fuel false rest
      return (item :: items, rest)

/-- Read the entries between braces up to the closing one. A node that is not marked as a key has no
value. -/
def readBraceEntries (handles : Handles) : Nat → (first : Bool) → List Token →
    Option (List (Node AnchorName × Node AnchorName) × List Token)
  | 0, _, _ => none
  | _ + 1, _, .flowMappingEnd :: rest => some ([], rest)
  | fuel + 1, first, ts => do
    match ← comma? first ts with
    | .flowMappingEnd :: rest => return ([], rest)
    | .key :: rest =>
      let (key, rest) ← readUnless handles fuel (.value :: braceStops) false false rest
      let (value, rest) ← readValue handles fuel braceStops false false rest
      let (entries, rest) ← readBraceEntries handles fuel false rest
      return ((key, value) :: entries, rest)
    | ts =>
      let (key, rest) ← read handles fuel false false ts
      let (entries, rest) ← readBraceEntries handles fuel false rest
      return ((key, .empty) :: entries, rest)

end

-- ================================================================== documents

/-- Whether a version is one that can be read here. -/
def isKnownVersion (major minor : Nat) : Bool :=
  major == 1 && (minor == 1 || minor == 2)

/-- Read the directives of a document. There is at most one version, and one meaning for a handle. -/
def directives? (version : Bool) (handles : Handles) : List Token → Option (Handles × List Token)
  | .versionDirective major minor :: rest =>
    if version || !isKnownVersion major minor then none else directives? true handles rest
  | .tagDirective handle start :: rest =>
    if (handles.lookup handle).isSome then none
    else directives? version ((handle, start) :: handles) rest
  | ts => some (handles, ts)

/-- Whether the next token is a directive. -/
def atDirective : List Token → Bool
  | .versionDirective .. :: _ | .tagDirective .. :: _ => true
  | _ => false

/-- Read the node of a document whose start mark is already read. -/
def readContent (handles : Handles) (fuel : Nat) (ts : List Token) :
    Option (Node AnchorName × List Token) :=
  if atDirective ts || startsWith [.documentStart, .documentEnd, .streamEnd] ts then
    some (.empty, ts)
  else read handles fuel true false ts

/-- Read a document. One without directives need not have a start mark. -/
def readDocument (fuel : Nat) (ts : List Token) : Option (Node AnchorName × List Token) :=
  if atDirective ts || startsWith [.documentStart] ts then do
    let (handles, rest) ← directives? false [] ts
    guard (startsWith [.documentStart] rest)
    readContent (handles ++ .standard) fuel (rest.drop 1)
  else read .standard fuel true false ts

/-- The node of a text of at most one document. Nothing inside if it has no document. A call for a
node takes a token or is the second one at its place, so four calls for a token are enough. -/
def ofTokens? (ts : List Token) : Option (Option (Node AnchorName)) :=
  match ts with
  | [.streamEnd] => some none
  | ts => do
    let (node, rest) ← readDocument (4 * ts.length + 8) ts
    guard (rest.dropWhile (· == .documentEnd) == [.streamEnd])
    return some node

end Node

end LayerPage.Yaml
