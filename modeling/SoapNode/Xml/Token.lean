import SoapNode.Xml.Error

/-!
# Tokens of a document

A document is a run of texts and markup. `Token.next` takes the first one off the bytes; what is left
is always shorter, so every reader of tokens ends. Tokens are not decoded here, and neither the order
of tags nor their content is looked at.
-/

namespace SoapNode

/-- A token. Texts, tags and sections carry their raw bytes; a tag carries what stands between its
angle brackets, without the slash of an empty or an end tag. -/
inductive Token where
  | text (raw : Bytes)
  | startTag (content : Bytes)
  | emptyTag (content : Bytes)
  | endTag (name : Bytes)
  | cdata (content : Bytes)
  | doctype
  | comment
  | instruction
  deriving DecidableEq, Repr

namespace Token

/-- XML's own white space: space, tab, carriage return and line feed. -/
def isSpace (b : UInt8) : Bool := b == 32 || b == 9 || b == 13 || b == 10

def ascii (s : String) : Bytes := Utf8.encode s

def lessThan : UInt8 := 60
def greaterThan : UInt8 := 62
def slash : UInt8 := 47
def question : UInt8 := 63

/-- Cuts at the first closing angle bracket in front of which `ended` holds of the bytes passed, the
nearest first. -/
def cut (ended : Bytes → Bool) (passed : Bytes) : Bytes → Option (Bytes × Bytes)
  | [] => none
  | b :: rest => if b == greaterThan && ended passed then some (passed.reverse, rest) else cut ended (b :: passed) rest

/-- Cuts at the first closing angle bracket that is not inside quotes. -/
def cutTag (quote : Option UInt8) (passed : Bytes) : Bytes → Option (Bytes × Bytes)
  | [] => none
  | b :: rest =>
    match quote with
    | none =>
      if b == greaterThan then some (passed.reverse, rest)
      else cutTag (if b == 34 || b == 39 then some b else none) (b :: passed) rest
    | some q => cutTag (if b == q then none else some q) (b :: passed) rest

/-- Cuts at the closing angle bracket that balances `depth` open ones. -/
def cutBalanced (depth : Nat) (passed : Bytes) : Bytes → Option (Bytes × Bytes)
  | [] => none
  | b :: rest =>
    if b == greaterThan then
      match depth with
      | 0 => some (passed.reverse, rest)
      | d + 1 => cutBalanced d (b :: passed) rest
    else cutBalanced (if b == lessThan then depth + 1 else depth) (b :: passed) rest

theorem cut_shorter {ended : Bytes → Bool} {passed bytes content rest : Bytes}
    (h : cut ended passed bytes = some (content, rest)) : rest.length < bytes.length := by
  induction bytes generalizing passed with
  | nil => simp [cut] at h
  | cons b bytes ih =>
    rw [cut] at h
    split at h
    · simp at h; simp [h.2]
    · have := ih h; simp; omega

theorem cutTag_shorter {quote : Option UInt8} {passed bytes content rest : Bytes}
    (h : cutTag quote passed bytes = some (content, rest)) : rest.length < bytes.length := by
  induction bytes generalizing quote passed with
  | nil => simp [cutTag] at h
  | cons b bytes ih =>
    cases quote with
    | none =>
      simp only [cutTag] at h
      split at h
      · simp at h; simp [h.2]
      · have := ih h; simp; omega
    | some q => have := ih (by simpa only [cutTag] using h); simp; omega

theorem cutBalanced_shorter {depth : Nat} {passed bytes content rest : Bytes}
    (h : cutBalanced depth passed bytes = some (content, rest)) : rest.length < bytes.length := by
  induction bytes generalizing depth passed with
  | nil => simp [cutBalanced] at h
  | cons b bytes ih =>
    rw [cutBalanced.eq_def] at h
    simp only at h
    split at h
    · split at h
      · simp at h; simp [h.2]
      · have := ih h; simp; omega
    · have := ih h; simp; omega

/-- A comment ends at two hyphens that are not those of its opening. -/
def commentEnded : Bytes → Bool
  | 45 :: 45 :: _ :: _ :: _ => true
  | _ => false

def cdataEnded : Bytes → Bool
  | 93 :: 93 :: _ => true
  | _ => false

def instructionEnded : Bytes → Bool
  | 63 :: _ => true
  | _ => false

def lower (b : UInt8) : UInt8 := if 65 ≤ b && b ≤ 90 then b + 32 else b

def startsWithAnyCase (word : Bytes) (bytes : Bytes) : Bool :=
  (bytes.take word.length).map lower == word.map lower

def ofComment (content : Bytes) : Except XmlError Token :=
  if (ascii "--").isPrefixOf content then .ok .comment else .error (.markup .comment)

def ofCdata (content : Bytes) : Except XmlError Token :=
  if (ascii "[CDATA[").isPrefixOf content then
    let inner := content.drop 7
    .ok (.cdata (inner.take (inner.length - 2)))
  else .error (.markup .cdata)

def ofDoctype (content : Bytes) : Except XmlError Token :=
  if !startsWithAnyCase (ascii "DOCTYPE") content then .error (.markup .doctype)
  else if (content.drop 7).all isSpace then .error .doctypeUnnamed
  else .ok .doctype

/-- The content runs from the first question mark to the last one, which have to be two. -/
def ofInstruction (content : Bytes) : Except XmlError Token :=
  if 2 ≤ content.length then .ok .instruction else .error (.markup .instruction)

/-- A name of white space alone is kept; behind any other name white space is cut. -/
def ofEndTag (content : Bytes) : Token :=
  if content.all isSpace then .endTag content
  else .endTag (content.reverse.dropWhile isSpace).reverse

def ofTag (content : Bytes) : Token :=
  match content.reverse with
  | b :: before => if b == slash then .emptyTag before.reverse else .startTag content
  | [] => .startTag content

def finish (unclosed : MarkupError) (make : Bytes → Except XmlError Token) :
    Option (Bytes × Bytes) → Except XmlError (Token × Bytes)
  | none => .error (.markup unclosed)
  | some (content, rest) =>
    match make content with
    | .error e => .error e
    | .ok t => .ok (t, rest)

theorem finish_ok {unclosed : MarkupError} {make : Bytes → Except XmlError Token} {found : Option (Bytes × Bytes)}
    {t : Token} {rest : Bytes} (h : finish unclosed make found = .ok (t, rest)) :
    ∃ content, found = some (content, rest) := by
  unfold finish at h
  split at h
  · simp at h
  · split at h
    · simp at h
    · simp at h; exact ⟨_, by rw [h.2]⟩

def declaration : Bytes → Except XmlError (Token × Bytes)
  | [] => .error (.markup .unknown)
  | b :: rest =>
    if b == 91 then finish .cdata ofCdata (cut cdataEnded [] (b :: rest))
    else if b == 45 then finish .comment ofComment (cut commentEnded [] (b :: rest))
    else if b == 68 || b == 100 then finish .doctype ofDoctype (cutBalanced 0 [] (b :: rest))
    else .error (.markup .unknown)

def markup : Bytes → Except XmlError (Token × Bytes)
  | [] => .error (.markup .tag)
  | b :: rest =>
    if b == 33 then declaration rest
    else if b == question then finish .instruction ofInstruction (cut instructionEnded [question] rest)
    else if b == slash then finish .tag (.ok ∘ ofEndTag) (cutTag none [] rest)
    else finish .tag (.ok ∘ ofTag) (cutTag none [] (b :: rest))

theorem markup_shorter {bytes rest : Bytes} {t : Token} (h : markup bytes = .ok (t, rest)) :
    rest.length < bytes.length := by
  unfold markup at h
  split at h
  · simp at h
  · split at h
    · unfold declaration at h
      split at h
      · simp at h
      · repeat' split at h
        · obtain ⟨c, hc⟩ := finish_ok h; have := cut_shorter hc; simp at this ⊢; omega
        · obtain ⟨c, hc⟩ := finish_ok h; have := cut_shorter hc; simp at this ⊢; omega
        · obtain ⟨c, hc⟩ := finish_ok h; have := cutBalanced_shorter hc; simp at this ⊢; omega
        · simp at h
    · split at h
      · obtain ⟨c, hc⟩ := finish_ok h; have := cut_shorter hc; simp at this ⊢; omega
      · split at h
        · obtain ⟨c, hc⟩ := finish_ok h; have := cutTag_shorter hc; simp at this ⊢; omega
        · obtain ⟨c, hc⟩ := finish_ok h; exact cutTag_shorter hc

/-- The first token and the bytes after it; nothing at the end of the input. -/
def next : Bytes → Except XmlError (Option (Token × Bytes))
  | [] => .ok none
  | b :: rest =>
    if b == lessThan then (markup rest).map some
    else .ok (some (.text (b :: rest.takeWhile (· != lessThan)), rest.dropWhile (· != lessThan)))

theorem next_shorter {bytes rest : Bytes} {t : Token} (h : next bytes = .ok (some (t, rest))) :
    rest.length < bytes.length := by
  unfold next at h
  split at h
  · simp at h
  · split at h
    · rename_i tail _
      cases hm : markup tail with
      | error e => rw [hm] at h; simp [Except.map] at h
      | ok p =>
        rw [hm] at h
        simp [Except.map] at h
        subst h
        have := markup_shorter hm
        simp only [List.length_cons]; omega
    · simp at h
      rw [← h.2]
      have := (List.dropWhile_suffix (l := ‹List UInt8›) (· != lessThan)).length_le
      simp only [List.length_cons]; omega

end Token

/-- One byte order mark in front of a document is not part of it. -/
def dropByteOrderMark : Bytes → Bytes
  | 0xEF :: 0xBB :: 0xBF :: rest => rest
  | bytes => bytes

end SoapNode
