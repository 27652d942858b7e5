import SoapNode.Config.Yaml.Node

/-!
# YAML documents

A text holds at most one document. Directives may stand in front of it, and then a marker has to begin
it. Anchors are numbered by how many names are known where they stand, and an alias refers to the
number that its name has by then. A name that is given again does not add to the known ones, so two
anchors may share a number, which the later one gets.
-/

namespace SoapNode.Yaml

def defaultHandles : Node.Handles :=
  [(exclamation, exclamation), (exclamation ++ exclamation, coreTag "")]

/-- Reads the directives of a document: at most one version, and each handle once. -/
def readDirectives (versioned : Bool) (handles : Node.Handles) : List Token → Option (Node.Handles × List Token)
  | .directive (.version major minor) :: ts =>
    if versioned || major ≠ 1 || (minor ≠ 1 && minor ≠ 2) then none else readDirectives true handles ts
  | .directive (.handle handle tagStart) :: ts =>
    if handles.any (·.1 == handle) then none else readDirectives versioned ((handle, tagStart) :: handles) ts
  | ts => some (handles, ts)

def endsDocument : List Token → Bool
  | [] | .directive _ :: _ | .documentStart :: _ | .documentEnd :: _ => true
  | _ => false

/-- Reads the only document of a text, behind which no more than markers of its end may stand. -/
def readDocument (ts : List Token) : Option Node := do
  let explicit := match ts with
    | .directive _ :: _ | .documentStart :: _ => true
    | _ => false
  let (root, rest) ←
    if explicit then
      match ← readDirectives false [] ts with
      | (handles, .documentStart :: ts) =>
        if endsDocument ts then some (Node.nothing, ts) else Node.ofTokens (handles ++ defaultHandles) ts
      | _ => none
    else Node.ofTokens defaultHandles ts
  if rest.all (· == .documentEnd) then some root else none

abbrev Names := List (String × Nat)

def Names.add (names : Names) : Option String → Names
  | some name => (name, names.length) :: names.filter (·.1 != name)
  | none => names

/-- A value, the names that are known behind it, and what its anchors stand for in the order of the
text. -/
structure Numbered (α : Type) where
  value : α
  names : Names
  anchored : List (Nat × Yaml)

/-- Puts an anchored value in front of those inside it. -/
def anchoring (names : Names) (anchor : Option String) (v : Yaml) (inside : List (Nat × Yaml)) : List (Nat × Yaml) :=
  if anchor.isSome then (names.length, v) :: inside else inside

mutual

def numbered (names : Names) : Node → Option (Numbered Yaml)
  | .alias name => (names.lookup name).map (fun n => ⟨.reference n, names, []⟩)
  | .scalar anchor s => some ⟨.scalar s, names.add anchor, anchoring names anchor (.scalar s) []⟩
  | .sequence anchor items => do
    let n ← numberedItems (names.add anchor) items
    return ⟨.sequence n.value, n.names, anchoring names anchor (.sequence n.value) n.anchored⟩
  | .mapping anchor entries => do
    let n ← numberedEntries (names.add anchor) entries
    return ⟨.mapping n.value, n.names, anchoring names anchor (.mapping n.value) n.anchored⟩

def numberedItems (names : Names) : List Node → Option (Numbered (List Yaml))
  | [] => some ⟨[], names, []⟩
  | v :: vs => do
    let n ← numbered names v
    let more ← numberedItems n.names vs
    return ⟨n.value :: more.value, more.names, n.anchored ++ more.anchored⟩

def numberedEntries (names : Names) : List (Node × Node) → Option (Numbered (List (Yaml × Yaml)))
  | [] => some ⟨[], names, []⟩
  | (k, v) :: es => do
    let key ← numbered names k
    let n ← numbered key.names v
    let more ← numberedEntries n.names es
    return ⟨(key.value, n.value) :: more.value, more.names, key.anchored ++ n.anchored ++ more.anchored⟩

end

/-- Reads a text. One without tokens has no document. -/
def parse (s : String) : Option (Option Document) := do
  match ← tokens? s with
  | [] => some none
  | ts =>
    let n ← numbered [] (← readDocument ts)
    return some ⟨n.value, n.anchored.reverse⟩

end SoapNode.Yaml
