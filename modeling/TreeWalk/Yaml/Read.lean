import TreeWalk.Yaml.Node
import TreeWalk.Yaml.Stream

/-!
# Reading YAML

A document is read from its tokens, from left to right, with one token in view at every decision.
Reading stops with `none` at the first thing that cannot be YAML.  Only the first document of a
text is read, and a text need not have one.

## Main definitions

* `Yaml.Reader` — the tokens to come, and the handles and names given so far.
* `Yaml.Reader.node` — reads a node.
* `Yaml.read?` — the first document of a text.
-/

namespace TreeWalk.Yaml

/-- The tokens to come, and what was said so far. -/
structure Reader where
  /-- The tokens to come. -/
  stream : Stream
  /-- What handles stand for. -/
  handles : List (Bytes × Bytes)
  /-- The names given so far with the numbers of their nodes, the latest in front. -/
  names : List (String × Nat)
  /-- The nodes that have names and were read to their end. -/
  named : List (Nat × Node)

/-- What is written in front of a node. -/
structure Properties where
  /-- The line it starts on. -/
  line : Nat
  /-- The name that the node is given. -/
  anchor : Option String
  /-- Its tag in full. -/
  tag : Option Bytes

namespace Reader

/-- The next token, which `Stream.fill` reads and which stays in view. -/
def peek (fuel : Nat) (reader : Reader) : Option (Token × Reader) := do
  let stream ← reader.stream.fill fuel fuel
  match stream.tokens with
  | [] => none
  | token :: _ => return (token, { reader with stream := stream })

/-- Takes the token in view. -/
def take (reader : Reader) : Reader :=
  let stream := reader.stream
  { reader with
    stream := { stream with tokens := stream.tokens.tail, taken := stream.taken + 1 } }

/-- Takes the token in view and looks at the next. -/
def advance (fuel : Nat) (reader : Reader) : Option (Token × Reader) := reader.take.peek fuel

/-! ### Directives -/

/-- The handles that need not be introduced. -/
def commonHandles : List (Bytes × Bytes) :=
  [(utf8 "!", utf8 "!"), (utf8 "!!", Tag.fullStart)]

/-- Reads directives; `versioned` says whether the version was given.  The token behind them is in
view afterwards. -/
def directives (fuel : Nat) : Nat → Bool → Reader → Option (Token × Reader)
  | 0, _, _ => none
  | count + 1, versioned, reader => do
    let (token, reader) ← reader.peek fuel
    match token.sign with
    | .directive (.version major minor) =>
      if versioned || major ≠ 1 || minor ≠ 1 then none
      else directives fuel count true reader.take
    | .directive (.handle name start) =>
      let handles := reader.handles ++ [(name, start)]
      if (reader.handles.lookup name).isSome then none
      else directives fuel count versioned { reader.take with handles := handles }
    | _ => return (token, { reader with handles := reader.handles ++ commonHandles })

/-! ### Nodes -/

/-- The tag that a `WrittenTag` stands for, its handle replaced by what a directive or
`commonHandles` say. -/
def fullTag? (reader : Reader) (tag : WrittenTag) : Option Bytes :=
  if tag.handle.isEmpty then some tag.suffix
  else (reader.handles.lookup tag.handle).map (· ++ tag.suffix)

/-- Reads what is written in front of a node: a name and a tag, in either order.  The token behind
is in view afterwards. -/
def properties (fuel : Nat) (reader : Reader) : Option (Properties × Token × Reader) := do
  let (token, reader) ← reader.peek fuel
  match token.sign with
  | .anchor name =>
    let (next, reader) ← reader.advance fuel
    match next.sign with
    | .tag tag =>
      let full ← reader.fullTag? tag
      let (next, reader) ← reader.advance fuel
      return (⟨token.line, name, full⟩, next, reader)
    | _ => return (⟨token.line, name, none⟩, next, reader)
  | .tag tag =>
    let full ← reader.fullTag? tag
    let (next, reader) ← reader.advance fuel
    match next.sign with
    | .anchor name =>
      let (next, reader) ← reader.advance fuel
      return (⟨token.line, name, full⟩, next, reader)
    | _ => return (⟨token.line, none, full⟩, next, reader)
  | _ => return (⟨token.line, none, none⟩, token, reader)

/-- Gives a name to the node that starts here; the number of the name is how many were given
before. -/
def giveName (reader : Reader) : Option String → Reader
  | none => reader
  | some name => { reader with names := (name, reader.names.length) :: reader.names }

/-- Keeps `node`, which was given a name when `count` names had been given. -/
def keep (reader : Reader) (anchor : Option String) (count : Nat) (node : Node) : Reader :=
  if anchor.isSome then { reader with named := (count, node) :: reader.named } else reader

mutual

/-- Reads a node.  Blocks can start here if `block` holds, and if `indentless` holds the dashes of
a sequence may stand where the node does. -/
def node (fuel : Nat) : Nat → Bool → Bool → Reader → Option (Node × Reader)
  | 0, _, _, _ => none
  | count + 1, block, indentless, reader => do
    let (token, reader) ← reader.peek fuel
    match token.sign with
    | .reference name =>
      return (.reference token.line name (← reader.names.lookup name), reader.take)
    | _ =>
      let (properties, token, reader) ← reader.properties fuel
      let line := properties.line
      let tag := properties.tag.bind Tag.ofName?
      let number := reader.names.length
      let named := reader.giveName properties.anchor
      let (node, reader) ← match token.sign with
        | .scalar style text => some (.scalar line tag style text, named.take)
        | .openSequence => do
          let (items, reader) ← flowItems fuel count true named.take
          pure (.sequence line tag items, reader)
        | .openMapping => do
          let (entries, reader) ← flowEntries fuel count true named.take
          pure (.mapping line tag entries, reader)
        | .item =>
          if indentless then do
            let (items, reader) ← looseItems fuel count named
            pure (.sequence line tag items, reader)
          else missingNode properties tag named
        | .sequenceBlock =>
          if block then do
            let (items, reader) ← blockItems fuel count named.take
            pure (.sequence line tag items, reader)
          else missingNode properties tag named
        | .mappingBlock =>
          if block then do
            let (entries, reader) ← blockEntries fuel count named.take
            pure (.mapping line tag entries, reader)
          else missingNode properties tag named
        | _ => missingNode properties tag named
      return (node, reader.keep properties.anchor number node)
where
  /-- A node that was left out behind a name or a tag. -/
  missingNode (properties : Properties) (tag : Option Tag) (reader : Reader) :
      Option (Node × Reader) :=
    if properties.anchor.isSome || properties.tag.isSome then
      some (.scalar properties.line tag .plain "", reader)
    else none

/-- Reads the items of an indented sequence up to its end. -/
def blockItems (fuel : Nat) : Nat → Reader → Option (List Node × Reader)
  | 0, _ => none
  | count + 1, reader => do
    let (token, reader) ← reader.peek fuel
    match token.sign with
    | .item =>
      let (next, reader) ← reader.advance fuel
      let (item, reader) ← match next.sign with
        | .item | .blockEnd => some (.missing token.line, reader)
        | _ => node fuel count true false reader
      let (more, reader) ← blockItems fuel count reader
      return (item :: more, reader)
    | .blockEnd => return ([], reader.take)
    | _ => none

/-- Reads the items of a sequence that is not indented; anything but `Sign.item` ends it. -/
def looseItems (fuel : Nat) : Nat → Reader → Option (List Node × Reader)
  | 0, _ => none
  | count + 1, reader => do
    let (token, reader) ← reader.peek fuel
    match token.sign with
    | .item =>
      let (next, reader) ← reader.advance fuel
      let (item, reader) ← match next.sign with
        | .item | .key | .value | .blockEnd => some (.missing token.line, reader)
        | _ => node fuel count true false reader
      let (more, reader) ← looseItems fuel count reader
      return (item :: more, reader)
    | _ => return ([], reader)

/-- Reads the entries of an indented mapping up to its end. -/
def blockEntries (fuel : Nat) : Nat → Reader → Option (List (Node × Node) × Reader)
  | 0, _ => none
  | count + 1, reader => do
    let (token, reader) ← reader.peek fuel
    match token.sign with
    | .key =>
      let (key, reader) ← blockPart fuel count token.line reader
      let (token, reader) ← reader.peek fuel
      let (value, reader) ← match token.sign with
        | .value => blockPart fuel count token.line reader
        | _ => some (.missing token.line, reader)
      let (more, reader) ← blockEntries fuel count reader
      return ((key, value) :: more, reader)
    | .blockEnd => return ([], reader.take)
    | _ => none

/-- Reads the key or the value of an entry, behind its sign on the given `line`; it may be
missing. -/
def blockPart (fuel : Nat) : Nat → Nat → Reader → Option (Node × Reader)
  | 0, _, _ => none
  | count + 1, line, reader => do
    let (next, reader) ← reader.advance fuel
    match next.sign with
    | .key | .value | .blockEnd => return (.missing line, reader)
    | _ => node fuel count true true reader

/-- Reads the items of a sequence in brackets up to its end. -/
def flowItems (fuel : Nat) : Nat → Bool → Reader → Option (List Node × Reader)
  | 0, _, _ => none
  | count + 1, first, reader => do
    let (token, reader) ← reader.peek fuel
    if token.sign = .closeSequence then return ([], reader.take)
    else if !first && token.sign ≠ .comma then none
    else
      let (token, reader) ← if first then some (token, reader) else reader.advance fuel
      match token.sign with
      | .closeSequence => return ([], reader.take)
      | .key =>
        let (key, reader) ← flowKey fuel count reader.take
        let (value, reader) ← flowValue fuel count .closeSequence reader
        let (more, reader) ← flowItems fuel count false reader
        return (.mapping token.line none [(key, value)] :: more, reader)
      | _ =>
        let (item, reader) ← node fuel count false false reader
        let (more, reader) ← flowItems fuel count false reader
        return (item :: more, reader)

/-- Reads the key of a single entry in a sequence in brackets.  If it is missing, the token in its
place is passed over. -/
def flowKey (fuel : Nat) : Nat → Reader → Option (Node × Reader)
  | 0, _ => none
  | count + 1, reader => do
    let (token, reader) ← reader.peek fuel
    match token.sign with
    | .value | .comma | .closeSequence => return (.missing token.line, reader.take)
    | _ => node fuel count false false reader

/-- Reads the value of an entry in brackets, which may be missing; `close` is the sign that ends
them. -/
def flowValue (fuel : Nat) : Nat → Sign → Reader → Option (Node × Reader)
  | 0, _, _ => none
  | count + 1, close, reader => do
    let (token, reader) ← reader.peek fuel
    if token.sign = .value then
      let (next, reader) ← reader.advance fuel
      if next.sign = .comma || next.sign = close then return (.missing next.line, reader)
      else node fuel count false false reader
    else return (.missing token.line, reader)

/-- Reads the entries of a mapping in braces up to its end. -/
def flowEntries (fuel : Nat) : Nat → Bool → Reader → Option (List (Node × Node) × Reader)
  | 0, _, _ => none
  | count + 1, first, reader => do
    let (token, reader) ← reader.peek fuel
    if token.sign = .closeMapping then return ([], reader.take)
    else if !first && token.sign ≠ .comma then none
    else
      let (token, reader) ← if first then some (token, reader) else reader.advance fuel
      match token.sign with
      | .closeMapping => return ([], reader.take)
      | .key =>
        let (next, reader) ← reader.advance fuel
        let (key, reader) ← match next.sign with
          | .value | .comma | .closeMapping => some (.missing next.line, reader)
          | _ => node fuel count false false reader
        let (value, reader) ← flowValue fuel count .closeMapping reader
        let (more, reader) ← flowEntries fuel count false reader
        return ((key, value) :: more, reader)
      | _ =>
        let (key, reader) ← node fuel count false false reader
        let (next, reader) ← reader.peek fuel
        let (more, reader) ← flowEntries fuel count false reader
        return ((key, .missing next.line) :: more, reader)

end

/-! ### Documents -/

/-- Reads the first document.  What follows it comes into view. -/
def document (fuel count : Nat) (reader : Reader) : Option (Option Document) := do
  let (first, reader) ← reader.peek fuel
  let bare := match first.sign with
    | .directive _ | .documentStart | .finish => false
    | _ => true
  if first.sign = .finish then return none
  else
    let (token, reader) ← reader.directives fuel count false
    let (root, reader) ← if bare then reader.node fuel count true false
      else if token.sign ≠ .documentStart then none
      else do
        let (token, reader) ← reader.advance fuel
        match token.sign with
        | .directive _ | .documentStart | .documentEnd | .finish =>
          some (.missing token.line, reader)
        | _ => reader.node fuel count true false
    let (_, reader) ← reader.peek fuel
    return some ⟨root, reader.named⟩

end Reader

/-- The first document of a text: `none` if it cannot be read, and `some none` if there is no
document. -/
def read? (text : Bytes) : Option (Option Document) :=
  let pieces := Pieces.ofBytes text
  let fuel := 2 * pieces.size + 16
  Reader.document fuel (8 * fuel) ⟨.start pieces, [], [], []⟩

end TreeWalk.Yaml
