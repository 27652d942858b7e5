import SoapNode.Proofs.Message.Content
import SoapNode.Proofs.Xml.Prefixes

/-!
# The name of what a source hands out

However a source cuts its bytes, the name that is found while they are pulled is the one that all of them
show, as long as the first start tag is complete within the limit. What was pulled is never lost.
-/

namespace SoapNode

variable {pulled : Bytes} {s s' : Source} {name : Option QName}

/-- Nothing is handed out only at the end, and only where the source does not break there. -/
theorem Source.ended_of_read {room : Nat} (hroom : 0 < room) (h : s.read room = .ok ([], s')) : s.rest = [] := by
  unfold read at h
  split at h
  · assumption
  · rename_i b rest hrest
    simp only [hrest, Except.ok.injEq, Prod.mk.injEq, List.take_eq_nil_iff, reduceCtorEq, or_false] at h
    have hsize := h.1
    split at hsize <;> omega

theorem Source.breaks_of_error {room : Nat} {e : RuntimeError} (h : s.read room = .error e) : s.breaks = true := by
  unfold read at h
  split at h
  · split at h
    · assumption
    · cases h
  · cases h

/-- A beginning that settles the name, or that there can be none, settles it for the whole. -/
theorem sniff_of_sniffPart {found : Except XmlError (Option QName)} (hpart : sniffPart pulled = found)
    (hsettled : found ≠ .ok none) (rest : Bytes) : sniff (pulled ++ rest) = found := by
  subst hpart
  exact (sniffPart_append pulled rest).resolve_left hsettled

theorem sniffSource_eq (hsound : s.breaks = false)
    (hstarts : (pulled ++ s.rest).length < sniffLimit ∨ StartsWithin sniffLimit (pulled ++ s.rest)) :
    (sniffSource pulled s).1 = (sniff (pulled ++ s.rest)).mapError .xml := by
  fun_induction sniffSource pulled s with
  | case1 pulled s e hpart =>
    rw [sniff_of_sniffPart hpart (by simp)]
    rfl
  | case2 pulled s q hpart =>
    rw [sniff_of_sniffPart hpart (by simp)]
    rfl
  | case3 pulled s hpart hlimit =>
    rcases hstarts with hshort | hstarts
    · rw [List.length_append] at hshort
      omega
    · exact absurd hpart (hstarts.sniffPart_ne hlimit)
  | case4 pulled s _ _ e hread =>
    rw [Source.breaks_of_error hread] at hsound
    cases hsound
  | case5 pulled s _ _ s' hread => rw [Source.ended_of_read (by decide) hread, List.append_nil]
  | case6 pulled s _ _ b piece s' hread ih =>
    have hwhole : pulled ++ b :: piece ++ s'.rest = pulled ++ s.rest := by
      rw [List.append_assoc, Source.read_append hread]
    rw [← hwhole]
    exact ih ((Source.breaks_of_read hread).trans hsound) (hwhole ▸ hstarts)

/-- A name that was found is that of the whole, limit or not. -/
theorem sniff_of_sniffSource (hsound : s.breaks = false) (h : (sniffSource pulled s).1 = .ok name) :
    sniff (pulled ++ s.rest) = .ok name := by
  fun_induction sniffSource pulled s with
  | case1 => cases h
  | case2 pulled s q hpart =>
    cases h
    exact sniff_of_sniffPart hpart (by simp) s.rest
  | case3 => cases h
  | case4 => cases h
  | case5 pulled s _ _ s' hread =>
    rw [Source.ended_of_read (by decide) hread, List.append_nil]
    cases hfound : sniff pulled with
    | error e => simp [hfound, Except.mapError] at h
    | ok name' => simpa [hfound, Except.mapError] using h
  | case6 pulled s _ _ b piece s' hread ih =>
    rw [← Source.read_append hread, ← List.append_assoc]
    exact ih ((Source.breaks_of_read hread).trans hsound) h

/-- However the bytes are cut into pieces, sniffing them loses none; and if the source does not break, it
finds what all of them together show, with the name of the tree if they are a document. -/
theorem sniffSource_whole (s : Source) :
    (sniffSource [] s).2.1 ++ (sniffSource [] s).2.2.rest = s.rest ∧
      (s.breaks = false → s.rest.length < sniffLimit ∨ StartsWithin sniffLimit s.rest →
        (sniffSource [] s).1 = (sniff s.rest).mapError .xml ∧
          ∀ e, Element.parse s.rest = .ok e → (sniffSource [] s).1 = .ok (some e.name)) := by
  refine ⟨(sniffSource_content [] s).1, fun hsound hstarts => ?_⟩
  have hwhole : (sniffSource [] s).1 = (sniff s.rest).mapError .xml := sniffSource_eq hsound hstarts
  refine ⟨hwhole, fun e hparse => ?_⟩
  rw [hwhole, sniff_of_parse hparse]
  rfl

/-- The first pieces of this source end inside the start tag. -/
theorem sniffSource_whole_pieces :
    let s : Source := ⟨Element.nested.toBytes, [1, 3, 2], false⟩
    (sniffSource [] s).1 = .ok (some ⟨"urn:a", "Outer"⟩) := by
  intro s
  have hparse : Element.parse s.rest = .ok (Element.nested.settle []) := Element.parse_toBytes (by decide)
  have hshort : s.rest.length < sniffLimit := by decide +kernel
  exact ((sniffSource_whole s).2 rfl (.inl hshort)).2 _ hparse

end SoapNode
