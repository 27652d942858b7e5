import SoapNode.Config.Yaml.Basic
import SoapNode.Config.Yaml.Scalar
import SoapNode.Config.Yaml.Tag

/-!
# YAML tokens

The tokens of a text, with marks where block collections begin and end. Those marks come from
indentation: a collection ends where a token stands less deep. A key of a mapping is known only by the
colon behind it, so the lexer keeps for each level of brackets the token that may turn out to begin a
key, and puts the marks in front of it then. Such a token has to stand on the line of the colon and at
most 1024 characters before it.
-/

namespace SoapNode.Yaml

inductive Token where
  | directive (d : Directive)
  | documentStart
  | documentEnd
  | blockSequence
  | blockMapping
  | blockEnd
  | flowSequence
  | flowSequenceEnd
  | flowMapping
  | flowMappingEnd
  | item
  | comma
  | key
  | value
  | alias (name : String)
  | anchor (name : String)
  | tag (t : Tag)
  | scalar (style : Style) (text : String)
  deriving DecidableEq, Repr

structure KeyStart where
  number : Nat
  place : Cursor
  /-- Whether there has to be a key, because the block mapping around it goes on here. -/
  required : Bool
  deriving DecidableEq, Repr

/-- How many bytes a colon may be away from the beginning of its key. -/
def keyReach : Nat := 1024

structure Lexer where
  place : Cursor
  /-- The tokens read so far, the last one first. -/
  tokens : List Token
  produced : Nat
  /-- The columns of the open block collections, the innermost first. -/
  levels : List Nat
  /-- What may be a key at each level of brackets, the innermost first. The last one is for none. -/
  keys : List (Option KeyStart)
  keyAllowed : Bool
  deriving Repr

namespace Lexer

def ofText (cs : Text) : Lexer := ⟨.ofText cs, [], 0, [], [none], true⟩

def inFlow (l : Lexer) : Bool := 1 < l.keys.length

def isDeeper (l : Lexer) (column : Nat) : Bool := l.levels.head?.all (· < column)

def add (l : Lexer) (t : Token) : Lexer := { l with tokens := t :: l.tokens, produced := l.produced + 1 }

/-- Puts a token where `number` tokens stand before it. -/
def insert (l : Lexer) (number : Nat) (t : Token) : Lexer :=
  let later := l.produced - number
  { l with tokens := l.tokens.take later ++ t :: l.tokens.drop later, produced := l.produced + 1 }

def closeFrom (l : Lexer) (column : Nat) : Lexer :=
  if l.inFlow then l
  else
    let closed := l.levels.takeWhile (column ≤ ·)
    { closed.foldl (fun l _ => l.add .blockEnd) l with levels := l.levels.drop closed.length }

/-- Begins a block collection in front of a token, unless one stands as deep already. -/
def openAt (l : Lexer) (column number : Nat) (t : Token) : Lexer :=
  if l.inFlow || !l.isDeeper column then l else { l.insert number t with levels := column :: l.levels }

/-- Forgets the key that may begin at the innermost level; a required one cannot be missing. -/
def dropKey (l : Lexer) : Option Lexer :=
  match l.keys with
  | some k :: keys => if k.required then none else some { l with keys := none :: keys }
  | _ => some l

def dropFarKeys (l : Lexer) : Option Lexer := do
  let keys ← l.keys.mapM (fun
    | some k =>
      if k.place.line < l.place.line || k.place.offset + keyReach < l.place.offset then
        (if k.required then none else some none)
      else some (some k)
    | none => some none)
  return { l with keys }

def noteKey (l : Lexer) : Option Lexer :=
  if !l.keyAllowed then some l
  else do
    let l ← l.dropKey
    let required := !l.inFlow && l.levels.head? == some l.place.column
    return { l with keys := some ⟨l.produced, l.place, required⟩ :: l.keys.tail }

def allowKey (l : Lexer) (allowed : Bool) : Lexer := { l with keyAllowed := allowed }

def moveTo (l : Lexer) (rest : Text) : Lexer := { l with place := l.place.moveTo rest }

/-- Passes blanks, comments and line breaks. In block context a new line may begin with a key, and a tab
cannot stand where one may. A byte order mark may stand at the beginning of a line. -/
def passSpace (flow : Bool) (column : Nat) (comment keyAllowed : Bool) : Text → Bool × Text
  | [] => (keyAllowed, [])
  | c :: cs =>
    if isBreak c then passSpace flow 0 false (keyAllowed || !flow) cs
    else if comment then passSpace flow (column + 1) true keyAllowed cs
    else if c == ' ' || (c == '\t' && (flow || !keyAllowed)) || (c == '\ufeff' && column == 0) then
      passSpace flow (column + 1) false keyAllowed cs
    else if c == '#' then passSpace flow (column + 1) true keyAllowed cs
    else (keyAllowed, c :: cs)

def mark (t : Token) (rest : Text) (l : Lexer) : Lexer := (l.add t).moveTo rest

def marker (t : Token) (l : Lexer) : Option Lexer := do
  let l ← (l.closeFrom 0).dropKey
  return ((l.allowKey false).add t).moveTo (l.place.rest.drop 3)

def directive (rest : Text) (l : Lexer) : Option Lexer := do
  let l ← (l.closeFrom 0).dropKey
  let (d, rest) ← Directive.read rest
  return ((l.allowKey false).add (.directive d)).moveTo (← endLine rest)

def openFlow (t : Token) (rest : Text) (l : Lexer) : Option Lexer := do
  let l ← l.noteKey
  return { mark t rest l with keys := none :: l.keys, keyAllowed := true }

def closeFlow (t : Token) (rest : Text) (l : Lexer) : Option Lexer := do
  let l ← l.dropKey
  return { mark t rest l with keys := if l.inFlow then l.keys.tail else l.keys, keyAllowed := false }

def comma (rest : Text) (l : Lexer) : Option Lexer := do
  return (mark .comma rest (← l.dropKey)).allowKey true

def item (rest : Text) (l : Lexer) : Option Lexer := do
  if !l.inFlow && !l.keyAllowed then none
  let l ← (l.openAt l.place.column l.produced .blockSequence).dropKey
  return (mark .item rest l).allowKey true

def explicitKey (rest : Text) (l : Lexer) : Option Lexer := do
  if !l.inFlow && !l.keyAllowed then none
  let l ← (l.openAt l.place.column l.produced .blockMapping).dropKey
  return (mark .key rest l).allowKey !l.inFlow

/-- The colon in front of a value. What may be a key in front of it is one now. -/
def value (rest : Text) (l : Lexer) : Option Lexer :=
  match l.keys with
  | some k :: keys =>
    let l := { l.insert k.number .key with keys := none :: keys }
    some ((mark .value rest (l.openAt k.place.column k.number .blockMapping)).allowKey false)
  | _ =>
    if !l.inFlow && !l.keyAllowed then none
    else some ((mark .value rest (l.openAt l.place.column l.produced .blockMapping)).allowKey !l.inFlow)

/-- A token that may begin a key and after which none begins. -/
def keyLike (read : Option (Token × Text)) (l : Lexer) : Option Lexer := do
  let l ← l.noteKey
  let (t, rest) ← read
  return (mark t rest l).allowKey false

def blockScalar (folded : Bool) (rest : Text) (l : Lexer) : Option Lexer := do
  let l ← l.dropKey
  let (text, rest) ← blockText folded l.levels.head? rest
  return (mark (.scalar (if folded then .folded else .literal) (String.ofList text)) rest l).allowKey true

def plainScalar (l : Lexer) : Option Lexer := do
  let l ← l.noteKey
  let depth := (l.levels.head?.map (· + 1)).getD 0
  let p ← plainText l.inFlow depth l.place.column .empty [] l.place.rest
  return (mark (.scalar .plain (String.ofList p.text)) p.rest l).allowKey p.broken

def quotedScalar (style : Style) (read : Option (Text × Text)) : Lexer → Option Lexer :=
  keyLike (read.map (fun (text, rest) => (.scalar style (String.ofList text), rest)))

/-- The end of the text counts as a new line. -/
def finish (l : Lexer) : Option (List Token) := do
  return (← (l.closeFrom 0).dropKey).tokens.reverse

def token (c : Char) (cs : Text) (l : Lexer) : Option Lexer :=
  let flow := l.inFlow
  let first := l.place.column == 0
  if first && c == '%' then l.directive cs
  else if first && startsMarker '-' (c :: cs) then l.marker .documentStart
  else if first && startsMarker '.' (c :: cs) then l.marker .documentEnd
  else if c == '[' then l.openFlow .flowSequence cs
  else if c == '\x7b' then l.openFlow .flowMapping cs
  else if c == ']' then l.closeFlow .flowSequenceEnd cs
  else if c == '\x7d' then l.closeFlow .flowMappingEnd cs
  else if c == ',' then l.comma cs
  else if c == '-' && endsWord cs then l.item cs
  else if c == '?' && (flow || endsWord cs) then l.explicitKey cs
  else if c == ':' && (flow || endsWord cs) then l.value cs
  else if c == '*' then l.keyLike ((anchorName cs).map (fun (n, r) => (.alias n, r)))
  else if c == '&' then l.keyLike ((anchorName cs).map (fun (n, r) => (.anchor n, r)))
  else if c == '!' then l.keyLike ((Tag.read flow (c :: cs)).map (fun (t, r) => (.tag t, r)))
  else if (c == '|' || c == '>') && !flow then l.blockScalar (c == '>') cs
  else if c == '\x27' then l.quotedScalar .singleQuoted (singleQuoted 1 .empty [] cs)
  else if c == '"' then l.quotedScalar .doubleQuoted (doubleQuoted 0 1 .empty [] cs)
  else if startsPlain flow (c :: cs) then l.plainScalar
  else none

/-- Reads all tokens. Each takes at least one character, so as many steps as there are suffice. -/
def run : (steps : Nat) → Lexer → Option (List Token)
  | 0, _ => none
  | steps + 1, l => do
    let (keyAllowed, rest) := passSpace l.inFlow l.place.column false l.keyAllowed l.place.rest
    let l := { l.moveTo rest with keyAllowed }
    match rest with
    | [] => l.finish
    | c :: cs =>
      let l ← l.dropFarKeys
      run steps (← token c cs (l.closeFrom (l.place.column + 1)))

end Lexer

/-- The tokens of a text, if it has no other characters than it may and no token is malformed. -/
def tokens? (s : String) : Option (List Token) :=
  if s.toList.all isAllowed then (Lexer.ofText (uniform s.toList)).run (s.toList.length + 1) else none

end SoapNode.Yaml
