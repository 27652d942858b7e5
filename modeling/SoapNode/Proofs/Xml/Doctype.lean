import Mathlib.Data.List.TakeWhile
import SoapNode.Proofs.Xml.Trees

/-!
# Document type declarations

A document is refused that declares its type, in whatever letters, in front of its root or inside it. What
is cut in front of a document (marks, white space and the XML declaration) hides none.
-/

namespace SoapNode

namespace Token

/-- How many elements are open behind a token. The end of the root is the end of the document; an end tag
that closes nothing is not. -/
def depthAfter : Nat → Token → Option Nat
  | depth, .startTag _ => some (depth + 1)
  | 0, .emptyTag _ => none
  | 1, .endTag _ => none
  | depth + 2, .endTag _ => some (depth + 1)
  | depth, _ => some depth

def opensDoctype (bytes : Bytes) : Bool := startsWithAnyCase (ascii "<!DOCTYPE") bytes

end Token

/-- A document type is declared among the tokens of these bytes, in front of the end of the root, where so
many elements are open at first. -/
inductive DoctypeWithin : Nat → Bytes → Prop where
  | here {depth : Nat} {bytes : Bytes} (opens : Token.opensDoctype bytes = true) : DoctypeWithin depth bytes
  | behind {depth depth' : Nat} {bytes rest : Bytes} {t : Token} (first : Token.next bytes = .ok (some (t, rest)))
      (after : t.depthAfter depth = some depth') (further : DoctypeWithin depth' rest) : DoctypeWithin depth bytes

namespace Token

variable {bytes rest : Bytes} {t : Token}

theorem eq_of_lower {b c : UInt8} (h : lower b = c) : b = c ∨ 65 ≤ b ∧ b = c - 32 := by
  unfold lower at h
  split at h
  · rename_i hletter
    have hletter : 65 ≤ b ∧ b ≤ 90 := by simpa using hletter
    exact .inr ⟨hletter.1, by rw [← h]; simp⟩
  · exact .inl h

theorem cons_of_opensDoctype (h : opensDoctype bytes = true) :
    ∃ b rest, bytes = lessThan :: 33 :: b :: rest ∧ (b = 68 ∨ b = 100) := by
  have hword : (bytes.take 9).map lower = (60 : UInt8) :: 33 :: 100 :: ascii "octype" := by
    have h : ((bytes.take 9).map lower == (60 : UInt8) :: 33 :: 100 :: ascii "octype") = true := h
    simpa using h
  match bytes, hword with
  | [], hword | [a], hword | [a, b], hword => simp at hword
  | a :: b :: c :: rest, hword =>
    simp only [List.take_succ_cons, List.map_cons, List.cons.injEq] at hword
    obtain ⟨ha, hb, hc, -⟩ := hword
    have ha : a = lessThan := (eq_of_lower ha).resolve_right (by rintro ⟨hle, rfl⟩; exact absurd hle (by decide))
    have hb : b = 33 := (eq_of_lower hb).resolve_right (by rintro ⟨hle, rfl⟩; exact absurd hle (by decide))
    have hc : c = 68 ∨ c = 100 := (eq_of_lower hc).symm.imp_left And.right
    exact ⟨c, rest, by rw [ha, hb], hc⟩

/-- What opens as the declaration of a document type is one, or cannot be read. -/
theorem eq_doctype (h : opensDoctype bytes = true) {found : Option (Token × Bytes)} (hnext : next bytes = .ok found) :
    ∃ rest, found = some (.doctype, rest) := by
  obtain ⟨b, rest, rfl, hb⟩ := cons_of_opensDoctype h
  have hbytes : next (lessThan :: 33 :: b :: rest) =
      (finish .doctype ofDoctype (cutBalanced 0 [] (b :: rest))).map some := by
    rw [next, if_pos (by decide), markup, if_pos (by decide)]
    rcases hb with rfl | rfl <;> rfl
  rw [hbytes] at hnext
  cases hfinish : finish .doctype ofDoctype (cutBalanced 0 [] (b :: rest)) with
  | error cause =>
    rw [hfinish] at hnext
    cases hnext
  | ok p =>
    obtain ⟨t, rest'⟩ := p
    rw [hfinish] at hnext
    cases hnext
    obtain ⟨content, hcut⟩ := finish_ok hfinish
    rw [hcut, finish] at hfinish
    split at hfinish
    · cases hfinish
    · rename_i hmake
      cases hfinish
      unfold ofDoctype at hmake
      split at hmake
      · cases hmake
      · split at hmake <;> cases hmake
        exact ⟨rest', rfl⟩

@[simp]
theorem depthAfter_text (depth : Nat) (raw : Bytes) : (Token.text raw).depthAfter depth = some depth := by
  rcases depth with _ | _ | depth <;> rfl

@[simp]
theorem depthAfter_instruction (depth : Nat) : Token.instruction.depthAfter depth = some depth := by
  rcases depth with _ | _ | depth <;> rfl

end Token

namespace DoctypeWithin

open Token

variable {depth : Nat} {bytes rest : Bytes} {t : Token}

theorem behind_of_next {depth' : Nat} (h : DoctypeWithin depth bytes)
    (hnext : next bytes = .ok (some (t, rest))) (ht : t ≠ .doctype) (hafter : t.depthAfter depth = some depth') :
    DoctypeWithin depth' rest := by
  cases h with
  | here opens =>
    obtain ⟨_, heq⟩ := eq_doctype opens hnext
    cases heq
    exact absurd rfl ht
  | behind first after further =>
    rw [hnext] at first
    cases first
    rw [hafter] at after
    cases after
    exact further

/-- What stands in front of the first markup does not matter. -/
theorem dropWhile_iff (depth : Nat) (bytes : Bytes) :
    DoctypeWithin depth (bytes.dropWhile (· != lessThan)) ↔ DoctypeWithin depth bytes := by
  cases bytes with
  | nil => rfl
  | cons b bytes =>
    by_cases hb : b = lessThan
    · rw [List.dropWhile_cons_of_neg (by simpa using hb)]
    · have hnext : next (b :: bytes) =
          .ok (some (.text (b :: bytes.takeWhile (· != lessThan)), bytes.dropWhile (· != lessThan))) := by
        rw [next, if_neg (by simpa using hb)]
      rw [List.dropWhile_cons_of_pos (by simpa using hb)]
      exact ⟨.behind hnext (depthAfter_text _ _),
        fun h => h.behind_of_next hnext (by rintro ⟨⟩) (depthAfter_text _ _)⟩

theorem iff_of_markup {a b : Bytes} (h : a.dropWhile (· != lessThan) = b.dropWhile (· != lessThan)) :
    DoctypeWithin depth a ↔ DoctypeWithin depth b := by
  rw [← dropWhile_iff depth a, ← dropWhile_iff depth b, h]

theorem dropByteOrderMark_iff : DoctypeWithin depth (dropByteOrderMark bytes) ↔ DoctypeWithin depth bytes := by
  apply iff_of_markup
  unfold dropByteOrderMark
  split <;> rfl

theorem dropSpace_iff : DoctypeWithin depth (bytes.dropWhile isAsciiSpace) ↔ DoctypeWithin depth bytes := by
  apply iff_of_markup
  induction bytes with
  | nil => rfl
  | cons b bytes ih =>
    by_cases hb : isAsciiSpace b = true
    · have hmarkup : b ≠ lessThan := by
        rintro rfl
        exact absurd hb (by decide)
      rw [List.dropWhile_cons_of_pos hb, ih, List.dropWhile_cons_of_pos (by simpa using hmarkup)]
    · rw [List.dropWhile_cons_of_neg hb]

/-- The end of an XML declaration is the end of an instruction. -/
theorem cut_of_afterDeclaration {p : UInt8} (passed : Bytes) (h : afterDeclaration (p :: bytes) = some rest) :
    ∃ content, cut instructionEnded (p :: passed) bytes = some (content, rest) ∧
      passed.length < content.length := by
  induction bytes generalizing p passed with
  | nil => simp [afterDeclaration] at h
  | cons b bytes ih =>
    unfold afterDeclaration at h
    split at h
    · rename_i heq
      cases heq
      cases h
      exact ⟨(63 :: passed).reverse, rfl, by simp⟩
    · rename_i hends heq
      cases heq
      have hended : (b == greaterThan && instructionEnded (p :: passed)) = false := by
        rw [Bool.and_eq_false_iff]
        by_cases hp : p = 63
        · exact .inl (beq_eq_false_iff_ne.mpr (fun hb => hends _ hp (congrArg (· :: bytes) hb)))
        · refine .inr ?_
          unfold instructionEnded
          split
          · rename_i heq
            exact absurd (List.cons.inj heq).1 hp
          · rfl
      obtain ⟨content, hcut, hlength⟩ := ih (p :: passed) h
      refine ⟨content, ?_, Nat.lt_of_succ_lt hlength⟩
      rw [cut, hended]
      exact hcut
    · rename_i heq
      cases heq

theorem next_of_afterDeclaration (h : (ascii "<?xml").isPrefixOf bytes = true)
    (hafter : afterDeclaration bytes = some rest) : next bytes = .ok (some (.instruction, rest)) := by
  obtain ⟨more, rfl⟩ := List.isPrefixOf_iff_prefix.mp h
  have hafter : afterDeclaration (120 :: (ascii "ml" ++ more)) = some rest := hafter
  obtain ⟨content, hcut, hlength⟩ := cut_of_afterDeclaration [question] hafter
  have hcut : cut instructionEnded [question] (120 :: (ascii "ml" ++ more)) = some (content, rest) := hcut
  have hmarkup : next (ascii "<?xml" ++ more) =
      (finish .instruction ofInstruction (cut instructionEnded [question] (120 :: (ascii "ml" ++ more)))).map some :=
        rfl
  rw [hmarkup, hcut, finish, ofInstruction, if_pos (show 2 ≤ content.length from hlength)]
  rfl

/-- Nothing that is cut in front of a document declares its type. -/
theorem stripDeclaration (h : DoctypeWithin depth bytes) : DoctypeWithin depth (stripDeclaration bytes) := by
  have h : DoctypeWithin depth (dropByteOrderMark bytes) := dropByteOrderMark_iff.mpr h
  unfold SoapNode.stripDeclaration
  dsimp only
  split
  · rename_i hdeclaration
    split
    · rename_i rest hafter
      have hnext := next_of_afterDeclaration hdeclaration hafter
      exact dropSpace_iff.mpr ((dropSpace_iff.mpr h).behind_of_next hnext (by rintro ⟨⟩) (depthAfter_instruction _))
    · exact h
  · exact h

theorem not_blank (h : DoctypeWithin depth bytes) : bytes.all isAsciiSpace = false := by
  rw [← Bool.not_eq_true]
  intro hblank
  have hnil : bytes.dropWhile isAsciiSpace = [] := List.dropWhile_eq_nil_iff.mpr (List.all_eq_true.mp hblank)
  have hnone := hnil ▸ dropSpace_iff.mpr h
  cases hnone with
  | here opens =>
    obtain ⟨_, _, heq, -⟩ := cons_of_opensDoctype opens
    cases heq
  | behind first => cases first

end DoctypeWithin

namespace Reader

variable {r : Reader} {bytes rest : Bytes} {t : Token}

/-- How many elements are open, as long as the root is not closed. -/
def Progress.depth? : Progress → Option Nat
  | .reading r => some r.opened.length
  | .finished _ => none

theorem length_addNode (n : Node) (os : List OpenElement) : (addNode n os).length = os.length := by
  cases os <;> rfl

theorem Fed.depth {p : Progress} (h : Fed r t p) : t.depthAfter r.opened.length = p.depth? := by
  obtain ⟨scopes, opened⟩ := r
  cases h with
  | opens => cases opened <;> rfl
  | childless => rcases opened with _ | ⟨o, _ | ⟨o', os⟩⟩ <;> rfl
  | @closes o os innermost =>
    cases innermost
    rcases os with _ | ⟨o', os⟩ <;> rfl
  | adds within text =>
    rw [Progress.depth?, length_addNode]
    rcases within with ⟨raw, rfl⟩ | ⟨content, rfl⟩ <;> rcases opened with _ | ⟨o, _ | ⟨o', os⟩⟩ <;> rfl
  | passes within => rcases within with ⟨raw, rfl⟩ | rfl | rfl
    <;> rcases opened with _ | ⟨o, _ | ⟨o', os⟩⟩ <;> rfl

theorem run_error_of_next {cause : XmlError} (hnext : Token.next bytes = .error cause) :
    r.run bytes = .error cause := by
  rw [run]
  split <;> rename_i heq <;> rw [hnext] at heq <;> cases heq
  rfl

theorem run_doctype {depth : Nat} (h : DoctypeWithin depth bytes) (hdepth : r.opened.length = depth) :
    ∃ cause, r.run bytes = .error cause := by
  induction h generalizing r with
  | @here depth bytes opens =>
    cases hnext : Token.next bytes with
    | error cause => exact ⟨cause, run_error_of_next hnext⟩
    | ok found =>
      obtain ⟨rest, rfl⟩ := Token.eq_doctype opens hnext
      exact ⟨_, run_eq r hnext⟩
  | @behind depth depth' bytes rest t first after _ ih =>
    rw [run_eq r first]
    cases hfeed : r.feed t with
    | error cause => exact ⟨cause, rfl⟩
    | ok p =>
      have hafter := (fed_of_feed hfeed).depth
      rw [hdepth, after] at hafter
      cases p with
      | finished e => cases hafter
      | reading r' => exact ih (Option.some_inj.mp hafter).symm

end Reader

/-- No document that declares its type is read. -/
theorem Element.parse_doctype {bytes : Bytes} (h : DoctypeWithin 0 bytes) : ∃ cause, parse bytes = .error cause :=
  Reader.run_doctype (DoctypeWithin.dropByteOrderMark_iff.mpr h) rfl

end SoapNode
