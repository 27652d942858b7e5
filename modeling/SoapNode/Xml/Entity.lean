import SoapNode.Xml.Error

/-!
# Character data and its references

`escape` writes the five markup characters as references. `unescape` reads references back: the five
names and decimal or hexadecimal code points below 2³². An ampersand has to be followed by a
semicolon before the next ampersand. Everything else stands for itself.
-/

namespace SoapNode.Entity

def escapeChar (c : Char) : List Char :=
  if c == '<' then "&lt;".toList
  else if c == '>' then "&gt;".toList
  else if c == '&' then "&amp;".toList
  else if c == '\x27' then "&apos;".toList
  else if c == '"' then "&quot;".toList
  else [c]

def escapeChars (cs : List Char) : List Char := cs.flatMap escapeChar

def escape (s : String) : List Char := escapeChars s.toList

def predefined? (name : List Char) : Option Char :=
  if name = "lt".toList then some '<'
  else if name = "gt".toList then some '>'
  else if name = "amp".toList then some '&'
  else if name = "apos".toList then some '\x27'
  else if name = "quot".toList then some '"'
  else none

def digit? (radix : Nat) (c : Char) : Option Nat :=
  let n := c.toNat
  let value? := if 48 ≤ n && n ≤ 57 then some (n - 48)
    else if 97 ≤ n && n ≤ 122 then some (n - 87)
    else if 65 ≤ n && n ≤ 90 then some (n - 55)
    else none
  value?.filter (· < radix)

/-- Reads digits from the left; the first that is none, or that takes the value to the limit, decides. -/
def readDigits (limit radix value : Nat) : List Char → Except CharRefError Nat
  | [] => .ok value
  | c :: cs =>
    match digit? radix c with
    | none => .error .digit
    | some d =>
      let next := value * radix + d
      if next < limit then readDigits limit radix next cs else .error .tooLarge

def readNumber (limit radix : Nat) : List Char → Except CharRefError Nat
  | [] => .error .noDigits
  | c :: cs => if c == '+' || c == '-' then .error .sign else readDigits limit radix 0 (c :: cs)

/-- The character that a number between `&#` and `;` stands for. -/
def readCharRef (text : List Char) : Except CharRefError Char := do
  let value ← match text with
    | 'x' :: digits => readNumber UInt32.size 16 digits
    | digits => readNumber UInt32.size 10 digits
  if value = 0 then .error .zero
  else if value.isValidChar then .ok (Char.ofNat value) else .error (.notCodepoint value)

def byteLength (cs : List Char) : Nat := cs.foldl (fun n c => n + c.utf8Size) 0

/-- What the reference means whose name starts at byte `start`. -/
def referent (start : Nat) : List Char → Except ReferenceError Char
  | '#' :: number => (readCharRef number).mapError .charRef
  | name =>
    match predefined? name with
    | some c => .ok c
    | none => .error (.unknownEntity start (start + byteLength name) (String.ofList name))

def isMark (c : Char) : Bool := c == '&' || c == ';'

def unescapeFrom (index : Nat) (read : List Char) : List Char → Except ReferenceError (List Char)
  | [] => .ok read.reverse
  | c :: cs =>
    if c == '&' then
      let name := cs.takeWhile (!isMark ·)
      match h : cs.dropWhile (!isMark ·) with
      | ';' :: rest =>
        match referent (index + 1) name with
        | .error e => .error e
        | .ok d => unescapeFrom (index + byteLength name + 2) (d :: read) rest
      | _ => .error (.unterminated index (index + 1 + byteLength cs))
    else unescapeFrom (index + c.utf8Size) (c :: read) cs
termination_by cs => cs.length
decreasing_by
  · have := (List.dropWhile_suffix (l := cs) (!isMark ·)).length_le
    rw [h] at this
    simp only [List.length_cons] at this ⊢
    omega
  · simp

def unescapeChars (cs : List Char) : Except ReferenceError (List Char) := unescapeFrom 0 [] cs

def unescape (s : String) : Except ReferenceError String := (unescapeChars s.toList).map String.ofList

end SoapNode.Entity
