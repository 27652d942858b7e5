/-!
# UTF-8

Bytes are read as the longest well-formed sequences. `decode` refuses the first ill-formed one and
says where it is; `decodeLossy` puts one replacement character for each. Surrogates, overlong forms
and values above U+10FFFF are ill-formed, and the length of an ill-formed sequence is that of the
longest start of a well-formed one, so both readers agree on where the next one begins.
-/

namespace SoapNode

abbrev Bytes := List UInt8

namespace Utf8

inductive Error where
  | invalid (length index : Nat)
  | incomplete (index : Nat)
  deriving DecidableEq, Repr

def Error.message : Error → String
  | .invalid length index => s!"invalid utf-8 sequence of {length} bytes from index {index}"
  | .incomplete index => s!"incomplete utf-8 byte sequence from index {index}"

/-- What a non-empty byte sequence begins with. A character and an ill-formed sequence carry the
number of bytes they take after the first. -/
inductive Head where
  | char (c : Char) (more : Nat)
  | invalid (more : Nat)
  | incomplete
  deriving DecidableEq, Repr

def isContinuation (b : UInt8) : Bool := 0x80 ≤ b && b ≤ 0xBF

/-- The bytes that may follow a lead byte of a sequence of three or four. -/
def mayFollow (lead second : UInt8) : Bool :=
  if lead == 0xE0 then 0xA0 ≤ second && second ≤ 0xBF
  else if lead == 0xED then 0x80 ≤ second && second ≤ 0x9F
  else if lead == 0xF0 then 0x90 ≤ second && second ≤ 0xBF
  else if lead == 0xF4 then 0x80 ≤ second && second ≤ 0x8F
  else isContinuation second

def low (b : UInt8) : Nat := b.toNat % 64

def head (lead : UInt8) (rest : Bytes) : Head :=
  if lead < 0x80 then .char (Char.ofNat lead.toNat) 0
  else if lead < 0xC2 then .invalid 0
  else if lead < 0xE0 then
    match rest with
    | [] => .incomplete
    | b :: _ => if isContinuation b then .char (Char.ofNat (lead.toNat % 32 * 64 + low b)) 1 else .invalid 0
  else if lead < 0xF0 then
    match rest with
    | [] => .incomplete
    | b :: rest =>
      if !mayFollow lead b then .invalid 0
      else match rest with
        | [] => .incomplete
        | c :: _ =>
          if isContinuation c then .char (Char.ofNat ((lead.toNat % 16 * 64 + low b) * 64 + low c)) 2
          else .invalid 1
  else if lead < 0xF5 then
    match rest with
    | [] => .incomplete
    | b :: rest =>
      if !mayFollow lead b then .invalid 0
      else match rest with
        | [] => .incomplete
        | c :: rest =>
          if !isContinuation c then .invalid 1
          else match rest with
            | [] => .incomplete
            | d :: _ =>
              if isContinuation d then
                .char (Char.ofNat (((lead.toNat % 8 * 64 + low b) * 64 + low c) * 64 + low d)) 3
              else .invalid 2
  else .invalid 0

def decodeFrom (index : Nat) (read : List Char) : Bytes → Except Error (List Char)
  | [] => .ok read.reverse
  | lead :: rest =>
    match head lead rest with
    | .char c more => decodeFrom (index + more + 1) (c :: read) (rest.drop more)
    | .invalid more => .error (.invalid (more + 1) index)
    | .incomplete => .error (.incomplete index)
termination_by bytes => bytes.length
decreasing_by simp only [List.length_drop, List.length_cons]; omega

def decodeChars (bytes : Bytes) : Except Error (List Char) := decodeFrom 0 [] bytes

def decode (bytes : Bytes) : Except Error String := (decodeChars bytes).map String.ofList

def replacement : Char := Char.ofNat 0xFFFD

def decodeLossyFrom (read : List Char) : Bytes → List Char
  | [] => read.reverse
  | lead :: rest =>
    match head lead rest with
    | .char c more => decodeLossyFrom (c :: read) (rest.drop more)
    | .invalid more => decodeLossyFrom (replacement :: read) (rest.drop more)
    | .incomplete => (replacement :: read).reverse
termination_by bytes => bytes.length
decreasing_by all_goals simp only [List.length_drop, List.length_cons]; omega

def decodeLossy (bytes : Bytes) : String := String.ofList (decodeLossyFrom [] bytes)

def encodeChars (cs : List Char) : Bytes := cs.flatMap String.utf8EncodeChar

def encode (s : String) : Bytes := encodeChars s.toList

@[simp] theorem encodeChars_append (a b : List Char) : encodeChars (a ++ b) = encodeChars a ++ encodeChars b := by
  simp [encodeChars]

end Utf8

end SoapNode
