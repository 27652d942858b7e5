import SoapNode.Proofs.Text.Utf8
import SoapNode.Xml.Tag

/-!
# Names without a colon

`isNCName` is the production NCName of namespaces in XML. Such a name has none of the characters at
which a reader of tags cuts; `Legible` says so, with or without a prefix in front. A name that is cut
at its first colon falls into the two names that it was put together from.
-/

namespace SoapNode

namespace Name

def isStart (c : Char) : Bool :=
  let n := c.toNat
  (65 ≤ n && n ≤ 90) || n == 95 || (97 ≤ n && n ≤ 122) || (0xC0 ≤ n && n ≤ 0xD6) ||
    (0xD8 ≤ n && n ≤ 0xF6) ||
    (0xF8 ≤ n && n ≤ 0x2FF) || (0x370 ≤ n && n ≤ 0x37D) || (0x37F ≤ n && n ≤ 0x1FFF) ||
    (0x200C ≤ n && n ≤ 0x200D) || (0x2070 ≤ n && n ≤ 0x218F) || (0x2C00 ≤ n && n ≤ 0x2FEF) ||
    (0x3001 ≤ n && n ≤ 0xD7FF) || (0xF900 ≤ n && n ≤ 0xFDCF) || (0xFDF0 ≤ n && n ≤ 0xFFFD) ||
    (0x10000 ≤ n && n ≤ 0xEFFFF)

def isPart (c : Char) : Bool :=
  let n := c.toNat
  isStart c || n == 45 || n == 46 || (48 ≤ n && n ≤ 57) || n == 0xB7 || (0x300 ≤ n && n ≤ 0x36F) ||
    (0x203F ≤ n && n ≤ 0x2040)

end Name

/-- Whether a text is an NCName. -/
def isNCName (s : String) : Bool :=
  match s.toList with
  | [] => false
  | c :: cs => Name.isStart c && cs.all Name.isPart

namespace Name

/-- The marks that delimit names, values and tags. -/
def marks : List Char := [' ', '\t', '\r', '\n', '=', '"', '\x27', '<', '>', '/', '!', '?']

/-- A text that is not empty and has no mark in it. -/
structure Legible (cs : List Char) : Prop where
  nonempty : cs ≠ []
  noMark : ∀ c ∈ cs, c ∉ marks

theorem not_mem_marks_of_isPart {c : Char} (h : isPart c = true) : c ∉ marks := by
  intro hmem
  simp only [marks, List.mem_cons, List.not_mem_nil, or_false] at hmem
  rcases hmem with rfl | rfl | rfl | rfl | rfl | rfl | rfl | rfl | rfl | rfl | rfl | rfl <;> revert h <;> decide

theorem isPart_of_isStart {c : Char} (h : isStart c = true) : isPart c = true := by
  simp [isPart, h]

theorem isPart_of_mem {s : String} (h : isNCName s = true) {c : Char} (hc : c ∈ s.toList) : isPart c = true := by
  unfold isNCName at h
  cases hs : s.toList with
  | nil => simp [hs] at hc
  | cons d ds =>
    simp only [hs, Bool.and_eq_true, List.all_eq_true] at h hc
    rcases List.mem_cons.mp hc with rfl | hc
    · exact isPart_of_isStart h.1
    · exact h.2 c hc

theorem toList_ne_nil {s : String} (h : isNCName s = true) : s.toList ≠ [] := by
  intro hs
  simp [isNCName, hs] at h

theorem ne_empty {s : String} (h : isNCName s = true) : s ≠ "" := by
  rintro rfl
  exact toList_ne_nil h rfl

theorem legible {s : String} (h : isNCName s = true) : Legible s.toList :=
  ⟨toList_ne_nil h, fun _ hc => not_mem_marks_of_isPart (isPart_of_mem h hc)⟩

theorem colon_not_mem {s : String} (h : isNCName s = true) : ':' ∉ s.toList := by
  intro hc
  have hpart := isPart_of_mem h hc
  revert hpart
  decide

theorem Legible.append_colon {p l : List Char} (hp : Legible p) (hl : Legible l) : Legible (p ++ ':' :: l) := by
  refine ⟨by simp, ?_⟩
  intro c hc
  rcases List.mem_append.mp hc with hc | hc
  · exact hp.noMark c hc
  · rcases List.mem_cons.mp hc with rfl | hc
    · decide
    · exact hl.noMark c hc

theorem isNCName_append_toString {p : String} (hp : isNCName p = true) (n : Nat) :
    isNCName (p ++ toString n) = true := by
  have hdigits : ∀ c ∈ Nat.toDigits 10 n, isPart c = true := by
    intro c hc
    have hdigit := Text.toNat_of_isDigit (Nat.isDigit_of_mem_toDigits (by decide) (by decide) hc)
    simp only [isPart, Bool.or_eq_true, Bool.and_eq_true, decide_eq_true_eq]
    omega
  have hlist : (p ++ toString n).toList = p.toList ++ Nat.toDigits 10 n := by
    simp [toString, Nat.repr]
  rw [isNCName, hlist]
  rw [isNCName] at hp
  cases hcs : p.toList with
  | nil => simp [hcs] at hp
  | cons c cs =>
    simp only [hcs, Bool.and_eq_true, List.all_eq_true, List.cons_append, List.mem_append] at hp ⊢
    exact ⟨hp.1, fun d hd => hd.elim (hp.2 d) (hdigits d)⟩

theorem isNCName_numbered (n : Nat) : isNCName s!"ns{n}" = true := isNCName_append_toString (p := "ns") (by decide) n

theorem Legible.ne_of_mem {cs : List Char} (h : Legible cs) {b m : UInt8} (hb : b ∈ Utf8.encodeChars cs)
    (hm : m.toNat < 128) (hmark : Char.ofNat m.toNat ∈ marks) : b ≠ m := by
  rintro rfl
  exact Utf8.not_mem_encodeChars hm (fun hmem => h.noMark _ hmem hmark) hb

theorem Legible.not_isSpace {cs : List Char} (h : Legible cs) {b : UInt8} (hb : b ∈ Utf8.encodeChars cs) :
    Token.isSpace b = false := by
  have h1 := h.ne_of_mem hb (m := 32) (by decide) (by decide)
  have h2 := h.ne_of_mem hb (m := 9) (by decide) (by decide)
  have h3 := h.ne_of_mem hb (m := 13) (by decide) (by decide)
  have h4 := h.ne_of_mem hb (m := 10) (by decide) (by decide)
  simp [Token.isSpace, h1, h2, h3, h4]

end Name

theorem splitQualified_of_not_mem {s : String} (h : ':' ∉ s.toList) : splitQualified s = (none, s) := by
  have hall : ∀ c ∈ s.toList, (c != ':') = true := by
    intro c hc
    simp only [bne_iff_ne, ne_eq]
    rintro rfl
    exact h hc
  have hdrop : s.toList.dropWhile (· != ':') = [] := by
    simpa using @List.dropWhile_append_of_pos Char (· != ':') s.toList [] hall
  simp only [splitQualified, hdrop]

theorem splitQualified_append {p l : String} (h : ':' ∉ p.toList) : splitQualified (p ++ ":" ++ l) = (some p, l) := by
  have hlist : (p ++ ":" ++ l).toList = p.toList ++ ':' :: l.toList := by simp
  have hp : ∀ c ∈ p.toList, (c != ':') = true := by
    intro c hc
    simp only [bne_iff_ne, ne_eq]
    rintro rfl
    exact h hc
  have htake : (p.toList ++ ':' :: l.toList).takeWhile (· != ':') = p.toList := by
    rw [List.takeWhile_append_of_pos hp, List.takeWhile_cons_of_neg (by decide), List.append_nil]
  have hdrop : (p.toList ++ ':' :: l.toList).dropWhile (· != ':') = ':' :: l.toList := by
    rw [List.dropWhile_append_of_pos hp, List.dropWhile_cons_of_neg (by decide)]
  simp only [splitQualified, hlist, htake, hdrop, String.ofList_toList]

theorem declaredPrefix?_of_not_mem {key : String} (h : ':' ∉ key.toList) (hx : key ≠ "xmlns") :
    declaredPrefix? key = none := by
  unfold declaredPrefix?
  split
  · rename_i rest hkey
    split
    · exact absurd (String.toList_injective (hkey.trans (by rfl))) hx
    · rw [hkey] at h
      simp at h
    · rfl
  · rfl

theorem declaredPrefix?_append {p l : String} (h : ':' ∉ p.toList) (hx : p ≠ "xmlns") :
    declaredPrefix? (p ++ ":" ++ l) = none := by
  have hsplit := splitQualified_append (l := l) h
  unfold declaredPrefix?
  split
  · rename_i rest hkey
    split
    · have heq : p ++ ":" ++ l = "xmlns" := String.toList_injective (hkey.trans rfl)
      rw [heq, splitQualified_of_not_mem (by decide)] at hsplit
      cases hsplit
    · rename_i tail
      have heq : p ++ ":" ++ l = "xmlns" ++ ":" ++ String.ofList tail := String.toList_injective (by rw [hkey]; simp)
      rw [heq, splitQualified_append (by decide)] at hsplit
      cases hsplit
      exact absurd rfl hx
    · rfl
  · rfl

theorem declaredPrefix?_xmlns_append (p : String) : declaredPrefix? ("xmlns:" ++ p) = some p := by
  have hlist : ("xmlns:" ++ p).toList = 'x' :: 'm' :: 'l' :: 'n' :: 's' :: ':' :: p.toList := by simp
  simp only [declaredPrefix?, hlist, String.ofList_toList]

end SoapNode
