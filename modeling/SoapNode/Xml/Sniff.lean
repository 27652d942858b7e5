import SoapNode.Xml.Tag

/-!
# The name of the document element

Sniffing finds the first start tag and reads nothing behind it. Texts in front of it are not decoded.
`sniff` takes the bytes for the whole document. `sniffPart` takes them for the beginning of one, so
that markup which is not finished calls for more; a start tag that cannot be read and a document type
are errors for both.
-/

namespace SoapNode

namespace Sniff

/-- What the bytes show: the first start tag, or that there is none in them, or how the tokens fail. -/
inductive Sight where
  | named (name : QName)
  | nothing
  | broken (cause : XmlError)
  deriving DecidableEq, Repr

/-- An error is one that no further bytes can mend. -/
def look (bytes : Bytes) : Except XmlError Sight :=
  match _h : Token.next bytes with
  | .error e => .ok (.broken e)
  | .ok none => .ok .nothing
  | .ok (some (t, rest)) =>
    match t with
    | .startTag content | .emptyTag content => (StartTag.read [] content).map (.named ·.name)
    | .endTag name => .ok (.broken (.endUnmatched ((Utf8.decode name).toOption.getD "")))
    | .doctype => .error .doctypeNotAllowed
    | .text _ | .cdata _ | .comment | .instruction => look rest
termination_by bytes.length
decreasing_by all_goals exact Token.next_shorter (by assumption)

end Sniff

def sniff (bytes : Bytes) : Except XmlError (Option QName) :=
  match Sniff.look (dropByteOrderMark bytes) with
  | .error e => .error e
  | .ok (.named q) => .ok (some q)
  | .ok .nothing => .ok none
  | .ok (.broken e) => .error e

/-- The name of the document element once the bytes hold its whole start tag. -/
def sniffPart (bytes : Bytes) : Except XmlError (Option QName) :=
  match Sniff.look (dropByteOrderMark bytes) with
  | .error e => .error e
  | .ok (.named q) => .ok (some q)
  | .ok .nothing | .ok (.broken _) => .ok none

/-- White space as it is cut around a declaration: XML's own and the form feed. -/
def isAsciiSpace (b : UInt8) : Bool := Token.isSpace b || b == 12

def afterDeclaration : Bytes → Option Bytes
  | 63 :: 62 :: rest => some rest
  | _ :: rest => afterDeclaration rest
  | [] => none

/-- Cuts a byte order mark, and an XML declaration with the white space on both sides of it. -/
def stripDeclaration (bytes : Bytes) : Bytes :=
  let bytes := dropByteOrderMark bytes
  let trimmed := bytes.dropWhile isAsciiSpace
  if (Token.ascii "<?xml").isPrefixOf trimmed then
    match afterDeclaration trimmed with
    | some rest => rest.dropWhile isAsciiSpace
    | none => bytes
  else bytes

end SoapNode
