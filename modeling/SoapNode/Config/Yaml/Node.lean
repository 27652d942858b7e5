import SoapNode.Config.Yaml.Lexer

/-!
# YAML nodes

The tree that the tokens of a document spell. A node is an alias or has content, which an anchor and a
tag may stand in front of. Content may be left out wherever the tokens around it show where it belongs.
-/

namespace SoapNode.Yaml

inductive Node where
  | scalar (anchor : Option String) (s : Scalar)
  | sequence (anchor : Option String) (items : List Node)
  | mapping (anchor : Option String) (entries : List (Node × Node))
  | alias (name : String)
  deriving Repr

namespace Node

def nothing : Node := .scalar none ⟨.plain, none, ""⟩

/-- What the handles of tags stand for. The first entry of a handle counts. -/
abbrev Handles := List (Bytes × Bytes)

def fullTag (handles : Handles) (t : Tag) : Option Bytes :=
  if t.handle.isEmpty then some t.suffix else (handles.lookup t.handle).map (· ++ t.suffix)

/-- Reads the anchor and the tag in front of a node, in either order. -/
def properties : List Token → (Option String × Option Tag) × List Token
  | .anchor a :: .tag t :: ts | .tag t :: .anchor a :: ts => ((some a, some t), ts)
  | .anchor a :: ts => ((some a, none), ts)
  | .tag t :: ts => ((none, some t), ts)
  | ts => ((none, none), ts)

/-- Reads a node that may be left out in front of some tokens. -/
def orNothing (isStop : Token → Bool) (read : List Token → Option (Node × List Token)) (ts : List Token) :
    Option (Node × List Token) :=
  if ts.head?.any isStop then some (nothing, ts) else read ts

def valueOrNothing (isStop : Token → Bool) (read : List Token → Option (Node × List Token)) :
    List Token → Option (Node × List Token)
  | .value :: ts => orNothing isStop read ts
  | ts => some (nothing, ts)

def endsItem (indentless : Bool) (t : Token) : Bool :=
  t == .item || t == .blockEnd || (indentless && (t == .key || t == .value))

def endsEntry (t : Token) : Bool := t == .key || t == .value || t == .blockEnd

def endsFlow (closing t : Token) : Bool := t == .comma || t == closing

/-- Passes the comma that has to stand between elements and may follow the last one. -/
def passComma (closing : Token) (first : Bool) (ts : List Token) : Option (List Token) :=
  if first || ts.head? == some closing then some ts
  else match ts with
    | .comma :: ts => some ts
    | _ => none

mutual

/-- Reads a node. Collections of lines are possible where `block` says so. `indentless` items stand as
deep as the key in front of them and have no marks of their own. -/
def read (handles : Handles) :
    (steps : Nat) → (block indentless : Bool) → List Token → Option (Node × List Token)
  | 0, _, _, _ => none
  | _ + 1, _, _, .alias name :: ts => some (.alias name, ts)
  | steps + 1, block, indentless, ts => do
    let ((anchor, written), ts) := properties ts
    let tag ← written.mapM (fullTag handles)
    match block, indentless, ts with
    | _, true, .item :: _ =>
      let (items, ts) ← blockItems handles steps true ts
      return (.sequence anchor items, ts)
    | _, _, .scalar style text :: ts =>
      return (.scalar anchor ⟨style, tag, text⟩, ts)
    | _, _, .flowSequence :: ts =>
      let (items, ts) ← flowItems handles steps true ts
      return (.sequence anchor items, ts)
    | _, _, .flowMapping :: ts =>
      let (entries, ts) ← flowEntries handles steps true ts
      return (.mapping anchor entries, ts)
    | true, _, .blockSequence :: ts =>
      let (items, ts) ← blockItems handles steps false ts
      return (.sequence anchor items, ts)
    | true, _, .blockMapping :: ts =>
      let (entries, ts) ← blockEntries handles steps ts
      return (.mapping anchor entries, ts)
    | _, _, ts => if anchor.isSome || tag.isSome then return (.scalar anchor ⟨.plain, tag, ""⟩, ts) else none

def blockItems (handles : Handles) :
    (steps : Nat) → (indentless : Bool) → List Token → Option (List Node × List Token)
  | 0, _, _ => none
  | steps + 1, indentless, .item :: ts => do
    let (item, ts) ← orNothing (endsItem indentless) (read handles steps true false) ts
    let (items, ts) ← blockItems handles steps indentless ts
    return (item :: items, ts)
  | _ + 1, true, ts => some ([], ts)
  | _ + 1, false, .blockEnd :: ts => some ([], ts)
  | _ + 1, false, _ => none

def blockEntries (handles : Handles) : (steps : Nat) → List Token → Option (List (Node × Node) × List Token)
  | 0, _ => none
  | steps + 1, .key :: ts => do
    let (k, ts) ← orNothing endsEntry (read handles steps true true) ts
    let (v, ts) ← valueOrNothing endsEntry (read handles steps true true) ts
    let (entries, ts) ← blockEntries handles steps ts
    return ((k, v) :: entries, ts)
  | _ + 1, .blockEnd :: ts => some ([], ts)
  | _ + 1, _ => none

/-- Reads the items of a flow sequence. A key among them begins a mapping of one entry; the token
behind its mark is passed when the key is left out. -/
def flowItems (handles : Handles) : (steps : Nat) → (first : Bool) → List Token → Option (List Node × List Token)
  | 0, _, _ => none
  | steps + 1, first, ts => do
    let isStop := endsFlow .flowSequenceEnd
    match ← passComma .flowSequenceEnd first ts with
    | .flowSequenceEnd :: ts => return ([], ts)
    | .key :: ts =>
      let (k, ts) ←
        if ts.head?.any (fun t => t == .value || isStop t) then some (nothing, ts.tail)
        else read handles steps false false ts
      let (v, ts) ← valueOrNothing isStop (read handles steps false false) ts
      let (items, ts) ← flowItems handles steps false ts
      return (.mapping none [(k, v)] :: items, ts)
    | ts =>
      let (item, ts) ← read handles steps false false ts
      let (items, ts) ← flowItems handles steps false ts
      return (item :: items, ts)

/-- Reads the entries of a flow mapping. One without the mark of a key has no value. -/
def flowEntries (handles : Handles) :
    (steps : Nat) → (first : Bool) → List Token → Option (List (Node × Node) × List Token)
  | 0, _, _ => none
  | steps + 1, first, ts => do
    let isStop := endsFlow .flowMappingEnd
    match ← passComma .flowMappingEnd first ts with
    | .flowMappingEnd :: ts => return ([], ts)
    | .key :: ts =>
      let (k, ts) ← orNothing (fun t => t == .value || isStop t) (read handles steps false false) ts
      let (v, ts) ← valueOrNothing isStop (read handles steps false false) ts
      let (entries, ts) ← flowEntries handles steps false ts
      return ((k, v) :: entries, ts)
    | ts =>
      let (k, ts) ← read handles steps false false ts
      let (entries, ts) ← flowEntries handles steps false ts
      return ((k, nothing) :: entries, ts)

end

/-- Reads one node. No path through the tree has more than two steps for a token. -/
def ofTokens (handles : Handles) (ts : List Token) : Option (Node × List Token) :=
  read handles (2 * ts.length + 2) true false ts

end Node

end SoapNode.Yaml
