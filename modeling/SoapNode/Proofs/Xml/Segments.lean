import SoapNode.Proofs.Xml.Prefixes

/-!
# Where a document has its element

Of a document that can be read the reader takes a first part, up to where the root closes. What stands in
front of the root and what follows it are runs of tokens of some kind; a document that is such a run up to
its end has no root.
-/

namespace SoapNode

variable {bytes rest after : Bytes}

/-- The bytes are tokens of this kind up to their end. -/
inductive Token.Consists (P : Token → Prop) : Bytes → Prop where
  | nil : Consists P []
  | cons {bytes rest : Bytes} {t : Token} (first : next bytes = .ok (some (t, rest))) (kind : P t)
    (further : Consists P rest) : Consists P bytes

namespace Sniff

open Token

theorem look_of_consists (h : Consists Passed bytes) : look bytes = .ok .nothing := by
  induction h with
  | nil => exact look_nil
  | cons first kind _ ih => exact (look_passed first kind).trans ih

theorem consists_of_look (h : look bytes = .ok .nothing) : Consists Passed bytes := by
  fun_induction look bytes with
  | case1 => cases h
  | case2 bytes hnext =>
    cases bytes with
    | nil => exact .nil
    | cons b bytes =>
      rw [next] at hnext
      split at hnext
      · cases hmarkup : markup bytes <;> simp [hmarkup, Except.map] at hnext
      · cases hnext
  | case3 bytes rest content | case4 bytes rest content =>
    cases hread : StartTag.read [] content <;> simp [hread, Except.map] at h
  | case5 => cases h
  | case6 => cases h
  | case7 _ _ _ hnext _ ih | case8 _ _ _ hnext _ ih | case9 _ _ hnext _ ih | case10 _ _ hnext _ ih =>
    exact .cons hnext trivial (ih h)

theorem look_eq_nothing_iff : look bytes = .ok .nothing ↔ Consists Passed bytes :=
  ⟨consists_of_look, look_of_consists⟩

end Sniff

/-- Nothing is found in a document just if it can be read to its end without meeting a start tag. -/
theorem sniff_eq_none_iff : sniff bytes = .ok none ↔ Token.Consists Token.Passed (dropByteOrderMark bytes) := by
  rw [← Sniff.look_eq_nothing_iff, sniff]
  split <;> simp_all

namespace Reader

variable {r r' : Reader} {t : Token} {e : Element}

/-- From here the reader takes the element, and it leaves these bytes. -/
inductive Ends : Reader → Bytes → Element → Bytes → Prop where
  | here {r : Reader} {bytes after : Bytes} {t : Token} {e : Element} (first : Token.next bytes = .ok (some (t, after)))
      (fed : r.feed t = .ok (.finished e)) : Ends r bytes e after
  | further {r r' : Reader} {bytes rest after : Bytes} {t : Token} {e : Element}
      (first : Token.next bytes = .ok (some (t, rest))) (fed : r.feed t = .ok (.reading r'))
        (ends : Ends r' rest e after) :
      Ends r bytes e after

theorem Ends.run (h : Ends r bytes e after) : r.run bytes = .ok e := by
  induction h with
  | here first fed => exact run_of_next first fed
  | further first fed _ ih => exact (run_of_next first fed).trans ih

theorem ends_of_run (h : r.run bytes = .ok e) : ∃ after, Ends r bytes e after := by
  fun_induction Reader.run r bytes with
  | case1 => cases h
  | case2 => cases h
  | case3 => cases h
  | case4 r bytes t rest hnext e' hfeed =>
    cases h
    exact ⟨rest, .here hnext hfeed⟩
  | case5 r bytes t rest hnext r' hfeed ih =>
    obtain ⟨after, hends⟩ := ih h
    exact ⟨after, .further hnext hfeed hends⟩

theorem run_eq_ok_iff : r.run bytes = .ok e ↔ ∃ after, Ends r bytes e after :=
  ⟨ends_of_run, fun ⟨_, h⟩ => h.run⟩

end Reader

end SoapNode
