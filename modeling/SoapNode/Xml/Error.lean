import SoapNode.Text.Utf8

/-!
# What can be wrong with a document

One constructor for each cause, grouped by the part of the reader that finds it; `XmlError.message`
is the only place that holds the wording. Positions inside a tag count bytes after the opening angle
bracket, positions inside a text count bytes of that text.
-/

namespace SoapNode

inductive MarkupError where
  | unknown
  | comment
  | cdata
  | doctype
  | instruction
  | tag
  deriving DecidableEq, Repr

def MarkupError.message : MarkupError → String
  | .unknown => "unknown or missed symbol in markup"
  | .comment => "comment not closed: `-->` not found before end of input"
  | .cdata => "CDATA not closed: `]]>` not found before end of input"
  | .doctype => "DOCTYPE not closed: `>` not found before end of input"
  | .instruction => "processing instruction or xml declaration not closed: `?>` not found before end of input"
  | .tag => "tag not closed: `>` not found before end of input"

inductive AttributeError where
  | equalsExpected (position : Nat)
  | valueExpected (position : Nat)
  | quoteExpected (position : Nat)
  | quoteUnclosed (position : Nat) (quote : Char)
  | repeated (position earlier : Nat)
  deriving DecidableEq, Repr

def AttributeError.message : AttributeError → String
  | .equalsExpected n => s!"position {n}: attribute key must be directly followed by `=` or space"
  | .valueExpected n => s!"position {n}: `=` must be followed by an attribute value"
  | .quoteExpected n => s!"position {n}: attribute value must be enclosed in `\"` or `'`"
  | .quoteUnclosed n q => s!"position {n}: missing closing quote `{q}` in attribute value"
  | .repeated n m => s!"position {n}: duplicated attribute, previous declaration at position {m}"

inductive CharRefError where
  | sign
  | noDigits
  | digit
  | tooLarge
  | zero
  | notCodepoint (value : Nat)
  deriving DecidableEq, Repr

def CharRefError.message : CharRefError → String
  | .sign => "unexpected number sign"
  | .noDigits => "cannot parse integer from empty string"
  | .digit => "invalid digit found in string"
  | .tooLarge => "number too large to fit in target type"
  | .zero => "0x0 character is not permitted in XML"
  | .notCodepoint v => s!"`{v}` is not a valid codepoint"

inductive ReferenceError where
  | unterminated (start stop : Nat)
  | unknownEntity (start stop : Nat) (name : String)
  | charRef (cause : CharRefError)
  deriving DecidableEq, Repr

def ReferenceError.message : ReferenceError → String
  | .unterminated start stop => s!"Error while escaping character at range {start}..{stop}: Cannot find ';' after '&'"
  | .unknownEntity start stop name => s!"at {start}..{stop}: unrecognized entity `{name}`"
  | .charRef cause => "invalid character reference: " ++ cause.message

inductive XmlError where
  | markup (cause : MarkupError)
  | doctypeUnnamed
  | endMismatch (expected found : String)
  | endUnmatched (found : String)
  | attribute (cause : AttributeError)
  | reference (cause : ReferenceError)
  | undecodable (cause : Utf8.Error)
  | notUtf8 (cause : Utf8.Error)
  | documentNotUtf8 (cause : Utf8.Error)
  | unboundPrefix (p : String)
  | doctypeNotAllowed
  | noRoot
  | noStartWithin (limit : Nat)
  | described (text : String)
  deriving DecidableEq, Repr

def XmlError.message : XmlError → String
  | .markup cause => "syntax error: " ++ cause.message
  | .doctypeUnnamed => "ill-formed document: `<!DOCTYPE>` declaration does not contain a name of a document type"
  | .endMismatch expected found => s!"ill-formed document: expected `</{expected}>`, but `</{found}>` was found"
  | .endUnmatched found => s!"ill-formed document: close tag `</{found}>` does not match any open tag"
  | .attribute cause => cause.message
  | .reference cause => cause.message
  | .undecodable cause => "cannot decode input using UTF-8: " ++ cause.message
  | .notUtf8 cause => cause.message
  | .documentNotUtf8 cause => "document is not valid UTF-8: " ++ cause.message
  | .unboundPrefix p => s!"unbound prefix '{p}'"
  | .doctypeNotAllowed => "DOCTYPE declarations are not allowed"
  | .noRoot => "no root element found"
  | .noStartWithin limit => s!"no payload element within the first {limit} bytes"
  | .described text => text

end SoapNode
