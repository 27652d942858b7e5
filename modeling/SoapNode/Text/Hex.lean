import SoapNode.Text.Utf8

/-!
# Hexadecimal digits

Digits are written in lower case and read in either case. Bytes are written as two digits each.
-/

namespace SoapNode.Hex

def value? (c : Char) : Option Nat :=
  if c.isDigit then some (c.toNat - 48)
  else if 'a' ≤ c ∧ c ≤ 'f' then some (c.toNat - 87)
  else if 'A' ≤ c ∧ c ≤ 'F' then some (c.toNat - 55)
  else none

/-- The number that digits stand for, the highest first. -/
def number? (ds : List Char) : Option Nat :=
  ds.foldl (fun n d => n.bind (fun n => (value? d).map (n * 16 + ·))) (some 0)

/-- The lowest digits of a number, as many as asked for. -/
def digits : (width : Nat) → Nat → List Char
  | 0, _ => []
  | width + 1, n => digits width (n / 16) ++ [Nat.digitChar (n % 16)]

def encodeChars (bytes : Bytes) : List Char := bytes.flatMap (fun b => digits 2 b.toNat)

def encode (bytes : Bytes) : String := String.ofList (encodeChars bytes)

def decodeChars? : List Char → Option Bytes
  | [] => some []
  | a :: b :: ds => do
    let n ← number? [a, b]
    return UInt8.ofNat n :: (← decodeChars? ds)
  | [_] => none

def decode? (s : String) : Option Bytes := decodeChars? s.toList

end SoapNode.Hex
