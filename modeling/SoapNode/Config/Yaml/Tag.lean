import SoapNode.Config.Yaml.Cursor
import SoapNode.Text.Hex

/-!
# YAML tags, anchors and directives

A tag is written in full, or as a handle and a suffix. Handles are abbreviations that directives give.
Escaped bytes of a tag are decoded one character at a time, and a zero byte ends it.
-/

namespace SoapNode.Yaml

def isWord (c : Char) : Bool := c.isAlphanum || c == '_' || c == '-'

def anchorName (cs : Text) : Option (String × Text) :=
  let name := cs.takeWhile isWord
  let rest := cs.drop name.length
  if name.isEmpty then none
  else if endsWord rest || rest.head?.any (['?', ':', ',', ']', '\x7d', '%', '@', '\x60'].contains ·) then
    some (String.ofList name, rest)
  else none

/-- The characters of a tag; `full` tags may hold flow marks, too. -/
def isTagChar (full : Bool) (c : Char) : Bool :=
  isWord c || [';', '/', '?', ':', '@', '&', '=', '+', '$', '.', '%', '!', '~', '*', '\x27', '(', ')'].contains c ||
    (full && [',', '[', ']'].contains c)

def characterSize? (b : UInt8) : Option Nat :=
  if b &&& 0x80 == 0 then some 1
  else if b &&& 0xE0 == 0xC0 then some 2
  else if b &&& 0xF0 == 0xE0 then some 3
  else if b &&& 0xF8 == 0xF0 then some 4
  else none

/-- Reads the characters of a tag. `due` is how many bytes an escaped character still needs. -/
def tagBytes (full : Bool) (due : Nat) (read : Bytes) : Text → Option (Bytes × Text)
  | [] => if due = 0 then some (read.reverse, []) else none
  | '%' :: a :: b :: cs => do
    let n ← Hex.number? [a, b]
    let octet := UInt8.ofNat n
    match due with
    | 0 => tagBytes full ((← characterSize? octet) - 1) (octet :: read) cs
    | due + 1 => if octet &&& 0xC0 == 0x80 then tagBytes full due (octet :: read) cs else none
  | c :: cs =>
    if due ≠ 0 || c == '%' then none
    else if isTagChar full c then tagBytes full 0 (UInt8.ofNat c.toNat :: read) cs
    else some (read.reverse, c :: cs)

/-- Reads the characters of a tag up to a zero byte among them. There has to be one unless `optional`. -/
def tagText (full optional : Bool) (cs : Text) : Option (Bytes × Text) := do
  let (bytes, rest) ← tagBytes full 0 [] cs
  if bytes.isEmpty && !optional then none else some (bytes.takeWhile (· != 0), rest)

structure Tag where
  /-- The handle, which is empty for a tag that is written in full. -/
  handle : Bytes
  suffix : Bytes
  deriving DecidableEq, Repr

def exclamation : Bytes := [33]

def handleText (cs : Text) : Text × Text :=
  match cs with
  | '!' :: cs =>
    let word := cs.takeWhile isWord
    match cs.drop word.length with
    | '!' :: rest => ('!' :: word ++ ['!'], rest)
    | rest => ('!' :: word, rest)
  | cs => ([], cs)

def bytesOf (cs : Text) : Bytes := Utf8.encodeChars cs

/-- Reads a tag. A lonely exclamation mark is a tag of its own. -/
def Tag.read (flow : Bool) (cs : Text) : Option (Tag × Text) := do
  let (tag, rest) ← match cs with
    | '!' :: '<' :: cs => do
      match ← tagText true false cs with
      | (suffix, '>' :: rest) => some (Tag.mk [] suffix, rest)
      | _ => none
    | cs => do
      let (word, rest) := handleText cs
      if 2 ≤ word.length && word.getLast? == some '!' then
        let (suffix, rest) ← tagText false false rest
        some (⟨bytesOf word, suffix⟩, rest)
      else
        let (more, rest) ← tagText false true rest
        let suffix := bytesOf (word.drop 1) ++ more
        some (if suffix.isEmpty then ⟨[], exclamation⟩ else ⟨exclamation, suffix⟩, rest)
  if endsWord rest || (flow && rest.head? == some ',') then some (tag, rest) else none

inductive Directive where
  | version (major minor : Nat)
  | handle (handle tagStart : Bytes)
  deriving DecidableEq, Repr

namespace Directive

def number? (cs : Text) : Option (Nat × Text) :=
  let digits := cs.takeWhile Char.isDigit
  if digits.isEmpty || 9 < digits.length then none
  else some (digits.foldl (fun n d => n * 10 + (d.toNat - 48)) 0, cs.drop digits.length)

def readVersion (cs : Text) : Option (Directive × Text) := do
  match ← number? (cs.dropWhile isBlank) with
  | (major, '.' :: rest) =>
    let (minor, rest) ← number? rest
    return (.version major minor, rest)
  | _ => none

def readHandle (cs : Text) : Option (Directive × Text) := do
  let (word, rest) := handleText (cs.dropWhile isBlank)
  if word != ['!'] && !(2 ≤ word.length && word.getLast? == some '!') then none
  else if !startsBlank rest then none
  else
    let (tagStart, rest) ← tagText true false (rest.dropWhile isBlank)
    if endsWord rest then return (.handle (bytesOf word) tagStart, rest) else none

def read (cs : Text) : Option (Directive × Text) :=
  let name := cs.takeWhile isWord
  let rest := cs.drop name.length
  if !endsWord rest then none
  else if name == "YAML".toList then readVersion rest
  else if name == "TAG".toList then readHandle rest
  else none

end Directive

end SoapNode.Yaml
