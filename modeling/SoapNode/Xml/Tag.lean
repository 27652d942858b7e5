import SoapNode.Xml.Element
import SoapNode.Xml.Entity
import SoapNode.Xml.Token

/-!
# Reading a tag

The content of a tag is a raw name and attributes. Attributes are read first, in order, each up to
its decoded value; then the element's prefix is resolved and then those of the attributes. An
attribute without a prefix is in no namespace.
-/

namespace SoapNode

def declaredPrefix? (key : String) : Option String :=
  match key.toList with
  | 'x' :: 'm' :: 'l' :: 'n' :: 's' :: rest =>
    match rest with
    | [] => some ""
    | ':' :: p => some (String.ofList p)
    | _ => none
  | _ => none

namespace StartTag

def rawName (content : Bytes) : Bytes := content.takeWhile (!Token.isSpace ·)

def readText (bytes : Bytes) : Except XmlError String := do
  let text ← (Utf8.decode bytes).mapError .undecodable
  (Entity.unescape text).mapError .reference

/-- An attribute as it stands in a tag, with the place where its key begins. -/
structure RawAttribute where
  start : Nat
  key : Bytes
  value : Bytes
  deriving DecidableEq, Repr

def inKey (b : UInt8) : Bool := b != 61 && !Token.isSpace b

def nextValue (total : Nat) (bytes : Bytes) : Except AttributeError (Bytes × Bytes) :=
  match bytes.dropWhile Token.isSpace with
  | [] => .error (.valueExpected total)
  | quote :: text =>
    if quote != 34 && quote != 39 then .error (.quoteExpected (total - (text.length + 1)))
    else match text.dropWhile (· != quote) with
      | [] => .error (.quoteUnclosed total (Char.ofNat quote.toNat))
      | _ :: rest => .ok (text.takeWhile (· != quote), rest)

/-- The first attribute of what is left of a tag of `total` bytes, `seen` being the earlier ones. -/
def nextAttribute (total : Nat) (seen : List RawAttribute) (bytes : Bytes) :
    Except AttributeError (Option (RawAttribute × Bytes)) :=
  match bytes.dropWhile Token.isSpace with
  | [] => .ok none
  | first :: afterFirst =>
    let start := total - (afterFirst.length + 1)
    let key := first :: afterFirst.takeWhile inKey
    match (afterFirst.dropWhile inKey).dropWhile Token.isSpace with
    | [] => .error (.equalsExpected total)
    | equals :: afterEquals =>
      if equals != 61 then .error (.equalsExpected (total - (afterEquals.length + 1)))
      else match seen.find? (·.key == key) with
        | some earlier => .error (.repeated start earlier.start)
        | none => (nextValue total afterEquals).map (fun (value, rest) => some (⟨start, key, value⟩, rest))

theorem nextValue_shorter {total : Nat} {bytes value rest : Bytes}
    (h : nextValue total bytes = .ok (value, rest)) : rest.length < bytes.length := by
  have h1 := (List.dropWhile_suffix (l := bytes) Token.isSpace).length_le
  unfold nextValue at h
  split at h
  · simp at h
  · rename_i quote text heq
    rw [heq] at h1
    have h2 := (List.dropWhile_suffix (l := text) (· != quote)).length_le
    split at h
    · simp at h
    · split at h
      · simp at h
      · rename_i hd tl htl
        rw [htl] at h2
        simp at h
        simp only [List.length_cons, h.2] at h1 h2
        omega

theorem nextAttribute_shorter {total : Nat} {seen : List RawAttribute} {bytes rest : Bytes} {a : RawAttribute}
    (h : nextAttribute total seen bytes = .ok (some (a, rest))) : rest.length < bytes.length := by
  have h1 := (List.dropWhile_suffix (l := bytes) Token.isSpace).length_le
  unfold nextAttribute at h
  split at h
  · simp at h
  · rename_i first afterFirst heq
    rw [heq] at h1
    have h2 := (List.dropWhile_suffix (l := afterFirst) inKey).length_le
    have h3 := (List.dropWhile_suffix (l := afterFirst.dropWhile inKey) Token.isSpace).length_le
    simp only at h
    split at h
    · simp at h
    · rename_i equals afterEquals heq2
      rw [heq2] at h3
      split at h
      · simp at h
      · split at h
        · simp at h
        · cases hv : nextValue total afterEquals with
          | error e => rw [hv] at h; simp [Except.map] at h
          | ok p =>
            rw [hv] at h
            simp [Except.map] at h
            have := nextValue_shorter hv
            rw [← h.2]
            simp only [List.length_cons] at h1 h3
            omega

def readAttributes (total : Nat) (seen : List RawAttribute) (read : List (String × String)) (bytes : Bytes) :
    Except XmlError (List (String × String)) :=
  match _h : nextAttribute total seen bytes with
  | .error e => .error (.attribute e)
  | .ok none => .ok read.reverse
  | .ok (some (a, rest)) => do
    let key ← (Utf8.decode a.key).mapError .notUtf8
    let value ← readText a.value
    readAttributes total (a :: seen) ((key, value) :: read) rest
termination_by bytes.length
decreasing_by exact nextAttribute_shorter (by assumption)

def namespaceOf (scopes : Scopes) (p : String) : Except XmlError String :=
  match scopes.resolve p with
  | some uri => .ok uri
  | none => .error (.unboundPrefix p)

def readAttribute (scopes : Scopes) (pair : String × String) : Except XmlError Attribute :=
  match splitQualified pair.1 with
  | (none, localPart) => .ok ⟨.unqualified localPart, none, pair.2⟩
  | (some p, localPart) => do
    let uri ← namespaceOf scopes p
    .ok ⟨⟨uri, localPart⟩, some p, pair.2⟩

def read (scopes : Scopes) (content : Bytes) : Except XmlError StartTag := do
  let raw := rawName content
  let pairs ← readAttributes content.length [] [] (content.drop raw.length)
  let declarations := pairs.filterMap (fun pair => (declaredPrefix? pair.1).map (·, pair.2))
  let inner : Scopes := declarations :: scopes
  let name ← (Utf8.decode raw).mapError .notUtf8
  let (p?, localPart) := splitQualified name
  let uri ← match p? with
    | some p => namespaceOf inner p
    | none => .ok ((inner.resolve "").getD "")
  let attributes ← (pairs.filter (declaredPrefix? ·.1 |>.isNone)).mapM (readAttribute inner)
  .ok ⟨⟨uri, localPart⟩, p?, declarations, attributes⟩

end StartTag

end SoapNode
