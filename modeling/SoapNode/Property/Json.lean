import SoapNode.Property.Value
import SoapNode.Text.Hex

/-!
# Property values as text

The JSON text of a value, and the value of a JSON text. Control characters and the line separators of
Unicode are written by their code point, so that a value takes one line for every reader. A number
with a point or an exponent stays a fraction, with one place at least.
-/

namespace SoapNode.PropertyValue

namespace Json

def escapeChar (c : Char) : List Char :=
  if c == '"' || c == '\\' then ['\\', c]
  else if c.toNat < 32 || [0x85, 0x2028, 0x2029].contains c.toNat then '\\' :: 'u' :: Hex.digits 4 c.toNat
  else [c]

def quote (s : String) : List Char := '"' :: s.toList.flatMap escapeChar ++ ['"']

/-- A decimal fraction with all its places; a value without places is written as an integer. -/
def numberText (digits : Int) (places : Nat) : List Char :=
  let whole := (toString (digits.natAbs / Nat.pow 10 places)).toList
  let part := (toString (digits.natAbs % Nat.pow 10 places)).toList
  (if digits < 0 then ['-'] else []) ++
    (if places = 0 then whole else whole ++ '.' :: List.replicate (places - part.length) '0' ++ part)

mutual

def write (rest : List Char) : PropertyValue → List Char
  | .null => "null".toList ++ rest
  | .bool b => (toString b).toList ++ rest
  | .number digits places => numberText digits places ++ rest
  | .string s => quote s ++ rest
  | .array items => '[' :: writeItems rest items
  | .object fields => '\x7b' :: writeFields rest fields

/-- Writes the items that are left of an array, with its closing bracket. -/
def writeItems (rest : List Char) : List PropertyValue → List Char
  | [] => ']' :: rest
  | v :: vs => write (match vs with
    | [] => writeItems rest vs
    | _ :: _ => ',' :: writeItems rest vs) v

/-- Writes the fields that are left of an object, with its closing brace. -/
def writeFields (rest : List Char) : List (String × PropertyValue) → List Char
  | [] => '\x7d' :: rest
  | (k, v) :: fs => quote k ++ ':' :: write (match fs with
    | [] => writeFields rest fs
    | _ :: _ => ',' :: writeFields rest fs) v

end

def skipSpace (cs : List Char) : List Char := cs.dropWhile (fun c => c == ' ' || c == '\n' || c == '\r' || c == '\t')

def escaped? (c : Char) : Option Char :=
  [('"', '"'), ('\\', '\\'), ('/', '/'), ('b', '\x08'), ('f', '\x0c'), ('n', '\n'), ('r', '\r'), ('t', '\t')].lookup c

/-- The character of two units, where the first one announces a second. -/
def pair? (high low : Nat) : Option Char :=
  if 0xD800 ≤ high ∧ high < 0xDC00 ∧ 0xDC00 ≤ low ∧ low < 0xE000 then
    some (Char.ofNat (0x10000 + (high - 0xD800) * 0x400 + (low - 0xDC00)))
  else none

def readString (read : List Char) : List Char → Option (String × List Char)
  | [] => none
  | '"' :: cs => some (String.ofList read.reverse, cs)
  | '\\' :: 'u' :: a :: b :: c :: d :: '\\' :: 'u' :: e :: f :: g :: h :: cs =>
    match Hex.number? [a, b, c, d], Hex.number? [e, f, g, h] with
    | some high, some low =>
      match pair? high low with
      | some ch => readString (ch :: read) cs
      | none => if high.isValidChar then readString (Char.ofNat high :: read)
        ('\\' :: 'u' :: e :: f :: g :: h :: cs) else none
    | _, _ => none
  | '\\' :: 'u' :: a :: b :: c :: d :: cs =>
    match Hex.number? [a, b, c, d] with
    | some n => if n.isValidChar then readString (Char.ofNat n :: read) cs else none
    | none => none
  | '\\' :: e :: cs =>
    match escaped? e with
    | some c => readString (c :: read) cs
    | none => none
  | c :: cs => if c.toNat < 32 || c == '\\' then none else readString (c :: read) cs
termination_by cs => cs.length

/-- Moves the point of a decimal fraction to the right, or to the left where the count is negative. -/
def shift (digits : Int) (places : Nat) (count : Int) : PropertyValue :=
  let places := (places : Int) - count
  let digits := if places < 1 then digits * Nat.pow 10 (1 - places).toNat else digits
  trimPlaces digits (max places 1).toNat
where
  /-- Cuts zeros at the end, down to one place. -/
  trimPlaces (digits : Int) : Nat → PropertyValue
    | places + 2 => if digits % 10 = 0 then trimPlaces (digits / 10) (places + 1) else .number digits (places + 2)
    | places => .number digits places

def natOf (ds : List Char) : Nat := ds.foldl (fun n d => n * 10 + (d.toNat - 48)) 0

def takeDigits (cs : List Char) : List Char × List Char := (cs.takeWhile Char.isDigit, cs.dropWhile Char.isDigit)

def readExponent : List Char → Option (Option Int × List Char)
  | c :: cs =>
    if c == 'e' || c == 'E' then
      let (negative, cs) := match cs with
        | '-' :: cs => (true, cs)
        | '+' :: cs => (false, cs)
        | cs => (false, cs)
      match takeDigits cs with
      | ([], _) => none
      | (ds, rest) => some (some (if negative then -(natOf ds : Int) else natOf ds), rest)
    else some (none, c :: cs)
  | [] => some (none, [])

def readNumber (cs : List Char) : Option (PropertyValue × List Char) := do
  let (sign, cs) := match cs with
    | '-' :: cs => ((-1 : Int), cs)
    | cs => (1, cs)
  let (whole, cs) := takeDigits cs
  if whole.isEmpty || (whole.head? == some '0' && 1 < whole.length) then none
  else
    let (part, cs) ← match cs with
      | '.' :: cs => match takeDigits cs with
        | ([], _) => none
        | (ds, rest) => some (some ds, rest)
      | cs => some (none, cs)
    let (exponent, cs) ← readExponent cs
    match part, exponent with
    | none, none => some (.number (sign * natOf whole) 0, cs)
    | _, _ =>
      let ds := part.getD []
      some (shift (sign * natOf (whole ++ ds)) ds.length (exponent.getD 0), cs)

mutual

def read : (fuel : Nat) → List Char → Option (PropertyValue × List Char)
  | 0, _ => none
  | fuel + 1, cs =>
    match skipSpace cs with
    | 'n' :: 'u' :: 'l' :: 'l' :: cs => some (.null, cs)
    | 't' :: 'r' :: 'u' :: 'e' :: cs => some (.bool true, cs)
    | 'f' :: 'a' :: 'l' :: 's' :: 'e' :: cs => some (.bool false, cs)
    | '"' :: cs => (readString [] cs).map (fun (s, cs) => (.string s, cs))
    | '[' :: cs =>
      match skipSpace cs with
      | ']' :: cs => some (.array [], cs)
      | cs => readItems fuel [] cs
    | '\x7b' :: cs =>
      match skipSpace cs with
      | '\x7d' :: cs => some (.object [], cs)
      | cs => readFields fuel [] cs
    | cs => readNumber cs

def readItems : (fuel : Nat) → List PropertyValue → List Char → Option (PropertyValue × List Char)
  | 0, _, _ => none
  | fuel + 1, items, cs => do
    let (v, cs) ← read fuel cs
    match skipSpace cs with
    | ',' :: cs => readItems fuel (v :: items) cs
    | ']' :: cs => some (.array (v :: items).reverse, cs)
    | _ => none

def readFields : (fuel : Nat) → List (String × PropertyValue) → List Char → Option (PropertyValue × List Char)
  | 0, _, _ => none
  | fuel + 1, fields, cs => do
    let (.string k, cs) ← read fuel cs | none
    let ':' :: cs := skipSpace cs | none
    let (v, cs) ← read fuel cs
    match skipSpace cs with
    | ',' :: cs => readFields fuel ((k, v) :: fields) cs
    | '\x7d' :: cs => some (.object ((k, v) :: fields).reverse, cs)
    | _ => none

end

end Json

def toJson (v : PropertyValue) : String := String.ofList (Json.write [] v)

def ofJson? (s : String) : Option PropertyValue :=
  match Json.read (s.length + 1) s.toList with
  | some (v, rest) => if (Json.skipSpace rest).isEmpty then some v else none
  | none => none

end SoapNode.PropertyValue
