import SoapNode.Message.Basic

/-!
# Typed payloads

A payload that is a flat record: an element with one child for each field. Reading goes by local names,
takes the fields in any order, skips unknown elements and cuts the white space around texts. Every field
has to be there once. Of namespaces only the reserved ones are checked: they belong to their prefixes.
-/

namespace SoapNode

inductive FieldKind where
  | text
  | number
  deriving DecidableEq, Repr

/-- A field's value; numbers have 32 bits. -/
inductive FieldValue where
  | text (s : String)
  | number (n : UInt32)
  deriving DecidableEq, Repr

namespace Record

def nameRanges : List (Nat × Nat) :=
  [(58, 58), (65, 90), (95, 95), (97, 122), (0xC0, 0xD6), (0xD8, 0xF6), (0xF8, 0x2FF), (0x370, 0x37D),
    (0x37F, 0x1FFF), (0x200C, 0x200D), (0x2070, 0x218F), (0x2C00, 0x2FEF), (0x3001, 0xD7FF), (0xF900, 0xFDCF),
    (0xFDF0, 0xFFFD), (0x10000, 0xEFFFF)]

def startsName (c : Char) : Bool := nameRanges.any (fun (a, b) => a ≤ c.toNat && c.toNat ≤ b)

def inName (c : Char) : Bool :=
  startsName c || [(45, 46), (48, 57), (0xB7, 0xB7), (0x300, 0x36F), (0x203F, 0x2040)].any
    (fun (a, b) => a ≤ c.toNat && c.toNat ≤ b)

/-- Whether a root can be called so. The empty name is let through. -/
def isRootName (s : String) : Bool :=
  match s.toList with
  | [] => true
  | c :: cs => startsName c && cs.all inName

def escapeChar (c : Char) : List Char :=
  if c == '<' then "&lt;".toList else if c == '>' then "&gt;".toList else if c == '&' then "&amp;".toList else [c]

def valueText : FieldValue → List Char
  | .text s => s.toList.flatMap escapeChar
  | .number n => n.toNat.repr.toList

def writeField (name : String) (v : FieldValue) : List Char :=
  match valueText v with
  | [] => '<' :: name.toList ++ ['/', '>']
  | cs => '<' :: name.toList ++ '>' :: cs ++ '<' :: '/' :: name.toList ++ ['>']

def unwritable : XmlError := .described "serialize"

def write (root : String) (fields : List (String × FieldValue)) : Except XmlError Bytes :=
  if isRootName root then
    .ok (Utf8.encodeChars ('<' :: root.toList ++ '>' :: fields.flatMap (fun (n, v) => writeField n v) ++
      '<' :: '/' :: root.toList ++ ['>']))
  else .error unwritable

def unfinished : XmlError := .described "unexpected end of the record"
def misplacedText : XmlError := .described "text where an element is expected"
def misplacedElement : XmlError := .described "an element inside a field"
def repeatedField : XmlError := .described "repeated field"
def missingField : XmlError := .described "missing field"
def invalidNumber : XmlError := .described "invalid number"
def mismatch {α : Type} (name found : Bytes) : Except XmlError α :=
  .error (.endMismatch (Reader.nameText name) (Reader.nameText found))

def next (bytes : Bytes) : Except XmlError (Token × { rest : Bytes // rest.length < bytes.length }) :=
  match h : Token.next bytes with
  | .error e => .error e
  | .ok none => .error unfinished
  | .ok (some (t, rest)) => .ok (t, ⟨rest, Token.next_shorter h⟩)

def reservedNamespace : XmlError := .described "a reserved prefix or namespace is bound"

def checkDeclaration (a : StartTag.RawAttribute) : Except XmlError Unit :=
  if !(Token.ascii "xmlns:").isPrefixOf a.key then .ok ()
  else
    let declared := a.key.drop 6
    let isXml := a.value == Token.ascii xmlNamespace
    if declared == Token.ascii "xml" then (if isXml then .ok () else .error reservedNamespace)
    else if isXml || declared == Token.ascii "xmlns" || a.value == Token.ascii xmlnsNamespace then
      .error reservedNamespace
    else .ok ()

/-- Checks the declarations of a tag up to the first attribute that is malformed. -/
def checkDeclarations (total : Nat) (bytes : Bytes) : Except XmlError Unit :=
  match _h : StartTag.nextAttribute total [] bytes with
  | .ok (some (a, rest)) => do
    checkDeclaration a
    checkDeclarations total rest
  | _ => .ok ()
termination_by bytes.length
decreasing_by exact StartTag.nextAttribute_shorter (by assumption)

def attributePart (tag : Bytes) : Bytes := tag.drop (StartTag.rawName tag).length

def nextChecked (bytes : Bytes) : Except XmlError (Token × { rest : Bytes // rest.length < bytes.length }) := do
  let (t, rest) ← next bytes
  match t with
  | .startTag tag | .emptyTag tag => checkDeclarations tag.length (attributePart tag)
  | _ => .ok ()
  return (t, rest)

/-- A piece of a field's content. Character data in a section is taken as it is. -/
inductive Piece where
  | text (raw : Bytes)
  | literal (s : String)

def trimStart (raw : Bytes) : Bytes := raw.dropWhile Token.isSpace

def trimEnd (raw : Bytes) : Bytes := (raw.reverse.dropWhile Token.isSpace).reverse

/-- White space is cut where a text begins the field's content or ends it. -/
def trimPieces (pieces : List Piece) : List Piece :=
  let cutFirst := match pieces with
    | .text raw :: ps => Piece.text (trimStart raw) :: ps
    | ps => ps
  match cutFirst.reverse with
  | .text raw :: ps => (Piece.text (trimEnd raw) :: ps).reverse
  | _ => cutFirst

def pieceText : Piece → Except XmlError String
  | .text raw => StartTag.readText raw
  | .literal s => .ok s

def textOf (read : List Piece) : Except XmlError String :=
  ((trimPieces read.reverse).mapM pieceText).map String.join

/-- Adds a text to the pieces, the last one first. White space in front of them is none. -/
def addText (raw : Bytes) (read : List Piece) : List Piece :=
  if read.isEmpty && raw.all Token.isSpace then read else .text raw :: read

def content (name : Bytes) (read : List Piece) (bytes : Bytes) :
    Except XmlError (String × { rest : Bytes // rest.length < bytes.length }) := do
  let (t, ⟨rest, h⟩) ← nextChecked bytes
  match t with
  | .text raw =>
    let (s, ⟨after, h'⟩) ← content name (addText raw read) rest
    .ok (s, ⟨after, Nat.lt_trans h' h⟩)
  | .cdata raw =>
    let s ← (Utf8.decode raw).mapError .undecodable
    let (s, ⟨after, h'⟩) ← content name (.literal s :: read) rest
    .ok (s, ⟨after, Nat.lt_trans h' h⟩)
  | .comment | .instruction | .doctype =>
    let (s, ⟨after, h'⟩) ← content name read rest
    .ok (s, ⟨after, Nat.lt_trans h' h⟩)
  | .startTag _ | .emptyTag _ => .error misplacedElement
  | .endTag found =>
    if found = name then do
      .ok (← textOf read, ⟨rest, h⟩)
    else mismatch name found
termination_by bytes.length

def skip (opened : List Bytes) (bytes : Bytes) : Except XmlError Bytes :=
  match opened with
  | [] => .ok bytes
  | name :: outer => do
    let (t, ⟨rest, _⟩) ← next bytes
    match t with
    | .startTag content => skip (StartTag.rawName content :: opened) rest
    | .endTag found => if found = name then skip outer rest else mismatch name found
    | _ => skip opened rest
termination_by bytes.length

/-- Checks the next tag, unless something else comes first. Comments do not count, nor does white space
where `trim` says so. The result is whether there is no text. -/
def checkAhead (trim : Bool) (bytes : Bytes) : Except XmlError Bool := do
  let (t, ⟨rest, _⟩) ← nextChecked bytes
  match t with
  | .text raw => if trim && raw.all Token.isSpace then checkAhead trim rest else .ok false
  | .cdata _ => .ok false
  | .comment | .instruction => checkAhead trim rest
  | _ => .ok true
termination_by bytes.length

/-- Drops the content of an unknown element up to its end tag. It begins with a text, which has to be
well-formed, or with a child, and then what is declared next to the tags of that child is checked. Of the
rest only the names of tags are. -/
def skipUnknown (name : Bytes) (read : List Piece) (bytes : Bytes) : Except XmlError Bytes := do
  let (t, ⟨rest, _⟩) ← nextChecked bytes
  match t with
  | .text raw => skipUnknown name (addText raw read) rest
  | .cdata raw =>
    let s ← (Utf8.decode raw).mapError .undecodable
    skipUnknown name (.literal s :: read) rest
  | .comment | .instruction => skipUnknown name read rest
  | .doctype => if read.isEmpty then skipUnknown name read rest else do
    let _ ← textOf read
    skip [name] rest
  | .emptyTag _ =>
    if read.isEmpty then do
      let _ ← checkAhead true rest
      skip [name] rest
    else do
      let _ ← textOf read
      skip [name] rest
  | .startTag tag =>
    let child := StartTag.rawName tag
    if read.isEmpty then do
      let trim ← checkAhead true rest
      let after ← skip [child] rest
      let _ ← checkAhead trim after
      skip [name] after
    else do
      let _ ← textOf read
      skip [child, name] rest
  | .endTag found => do
    let _ ← textOf read
    if found = name then .ok rest else mismatch name found
termination_by bytes.length

def valueOf (kind : FieldKind) (s : String) : Except XmlError FieldValue :=
  match kind with
  | .text => .ok (.text s)
  | .number =>
    let digits := match s.toList with | '+' :: cs => cs | cs => cs
    match Entity.readNumber UInt32.size 10 digits with
    | .ok n => .ok (.number (UInt32.ofNat n))
    | .error _ => .error invalidNumber

def fieldOf (schema : List (String × FieldKind)) (raw : Bytes) : Except XmlError (Option (String × FieldKind)) := do
  let name ← (Utf8.decode raw).mapError .notUtf8
  let localPart := (splitQualified name).2
  .ok ((schema.lookup localPart).map (localPart, ·))

def add (fields : List (String × FieldValue)) (name : String) (v : FieldValue) :
    Except XmlError (List (String × FieldValue)) :=
  if (fields.lookup name).isSome then .error repeatedField else .ok (fields ++ [(name, v)])

def fields (schema : List (String × FieldKind)) (root : Bytes) (read : List (String × FieldValue)) (bytes : Bytes) :
    Except XmlError (List (String × FieldValue)) := do
  let (t, ⟨rest, _⟩) ← nextChecked bytes
  match t with
  | .text raw =>
    let _ ← StartTag.readText raw
    fields schema root read rest
  | .cdata _ | .comment | .instruction | .doctype => fields schema root read rest
  | .emptyTag tag =>
    match ← fieldOf schema (StartTag.rawName tag) with
    | none => fields schema root read rest
    | some (name, kind) =>
      let v ← valueOf kind ""
      let read ← add read name v
      fields schema root read rest
  | .startTag tag =>
    match ← fieldOf schema (StartTag.rawName tag) with
    | none =>
      let after ← skipUnknown (StartTag.rawName tag) [] rest
      if _h : after.length < bytes.length then fields schema root read after else .error unfinished
    | some (name, kind) =>
      let (s, ⟨after, _⟩) ← content (StartTag.rawName tag) [] rest
      let v ← valueOf kind s
      let read ← add read name v
      fields schema root read after
  | .endTag found =>
    if found = root then .ok read else mismatch root found
termination_by bytes.length

/-- Checks how the attributes of the root are written; their values have no part in the record. -/
def checkAttributes (total : Nat) (seen : List StartTag.RawAttribute) (bytes : Bytes) : Except XmlError Unit :=
  match _h : StartTag.nextAttribute total seen bytes with
  | .error e => .error (.attribute e)
  | .ok none => .ok ()
  | .ok (some (a, rest)) => checkAttributes total (a :: seen) rest
termination_by bytes.length
decreasing_by exact StartTag.nextAttribute_shorter (by assumption)

def start (schema : List (String × FieldKind)) (bytes : Bytes) : Except XmlError (List (String × FieldValue)) := do
  let (t, ⟨rest, _⟩) ← nextChecked bytes
  match t with
  | .startTag tag =>
    checkAttributes tag.length [] (attributePart tag)
    fields schema (StartTag.rawName tag) [] rest
  | .emptyTag tag =>
    checkAttributes tag.length [] (attributePart tag)
    .ok []
  | .text raw => if raw.all Token.isSpace then start schema rest else .error misplacedText
  | .cdata _ => .error misplacedText
  | .endTag name => .error (.endUnmatched (Reader.nameText name))
  | .comment | .instruction | .doctype => start schema rest
termination_by bytes.length

/-- Reads a record, its fields in the order of the schema. -/
def read (schema : List (String × FieldKind)) (bytes : Bytes) : Except XmlError (List (String × FieldValue)) := do
  let found ← start schema (dropByteOrderMark bytes)
  schema.mapM (fun (name, _) =>
    match found.lookup name with
    | some v => .ok (name, v)
    | none => .error missingField)

end Record

namespace Message

def ofRecord (version : Option SoapVersion) (root : String) (fields : List (String × FieldValue)) :
    Except RuntimeError Message :=
  ((Record.write root fields).mapError .xml).map (ofBytes version)

def readRecord (schema : List (String × FieldKind)) (m : Message) :
    Except RuntimeError (Option (List (String × FieldValue))) × Message :=
  let (bytes, m) := m.readBytes
  (match bytes with
    | .error e => .error e
    | .ok none => .ok none
    | .ok (some bytes) =>
      let document := stripDeclaration bytes
      match Utf8.decodeChars document with
      | .error e => .error (.xml (.notUtf8 e))
      | .ok _ => ((Record.read schema document).mapError .xml).map some, m)

end Message

end SoapNode
