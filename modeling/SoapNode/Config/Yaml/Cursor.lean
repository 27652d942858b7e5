/-!
# Places in a YAML text

A text is read with its line breaks made uniform: a carriage return, a line feed, both together and a
next-line character are one line feed, while the two Unicode separators stay what they are. A cursor is
what is left of a text and where that begins.
-/

namespace SoapNode.Yaml

abbrev Text := List Char

def isBlank (c : Char) : Bool := c == ' ' || c == '\t'

def isBreak (c : Char) : Bool := c == '\n' || c == '\u2028' || c == '\u2029'

def endsWord (cs : Text) : Bool := cs.head?.all (fun c => isBlank c || isBreak c)

def startsBlank (cs : Text) : Bool := cs.head?.any isBlank

/-- The characters that a text may hold: none that controls, but tabs and line breaks. -/
def isAllowed (c : Char) : Bool :=
  c == '\t' || c == '\n' || c == '\r' || c == '\u0085' || (' ' ≤ c && c ≤ '~') ||
    ('\u00a0' ≤ c && c ≤ '\ufffd') || '\uffff' < c

def uniform : Text → Text
  | [] => []
  | '\r' :: '\n' :: cs => '\n' :: uniform cs
  | c :: cs => (if c == '\r' || c == '\u0085' then '\n' else c) :: uniform cs

/-- Whether a marker of a document begins here: three of a character, standing alone. -/
def startsMarker (c : Char) : Text → Bool
  | a :: b :: d :: cs => a == c && b == c && d == c && endsWord cs
  | _ => false

def startsAnyMarker (cs : Text) : Bool := startsMarker '-' cs || startsMarker '.' cs

structure Cursor where
  rest : Text
  /-- How many bytes lie behind, a line break counted as one. -/
  offset : Nat
  line : Nat
  column : Nat
  deriving DecidableEq, Repr

namespace Cursor

def ofText (cs : Text) : Cursor := ⟨cs, 0, 0, 0⟩

def pass (p : Cursor) (c : Char) : Cursor :=
  if isBreak c then { p with offset := p.offset + 1, line := p.line + 1, column := 0 }
  else { p with offset := p.offset + c.utf8Size, column := p.column + 1 }

def moveTo (p : Cursor) (rest : Text) : Cursor :=
  (p.rest.take (p.rest.length - rest.length)).foldl pass { p with rest := rest }

end Cursor

end SoapNode.Yaml
