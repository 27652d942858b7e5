import SoapNode.Proofs.Xml.Doctype
import SoapNode.Proofs.Xml.Segments

/-!
# What is cut in front of a document

Nothing that stands in front of the root is kept, so a document may lose it: a byte order mark, white space,
and an XML declaration. Mark and white space begin a text, and what is left of that text can be read if the
whole can.
-/

namespace SoapNode

/-- Where decoding begins and what was decoded before does not matter. -/
theorem Utf8.decodeFrom_ok {index : Nat} {read out : List Char} {bytes : Bytes}
    (h : decodeFrom index read bytes = .ok out) :
    ∃ cs, ∀ index read, decodeFrom index read bytes = .ok (read.reverse ++ cs) := by
  fun_induction decodeFrom index read bytes with
  | case1 => exact ⟨[], fun index read => by rw [decodeFrom, List.append_nil]⟩
  | case2 index read lead rest c more hhead ih =>
    obtain ⟨cs, hcs⟩ := ih h
    refine ⟨c :: cs, fun index read => ?_⟩
    rw [decodeFrom, hhead]
    dsimp only
    rw [hcs, List.reverse_cons, List.append_assoc, List.singleton_append]
  | case3 => cases h
  | case4 => cases h

namespace Entity

theorem referent_ok {start : Nat} {name : List Char} {c : Char} (h : referent start name = .ok c) (start' : Nat) :
    referent start' name = .ok c := by
  unfold referent at h ⊢
  split at h
  · exact h
  · split at h
    · exact h
    · cases h

/-- Where references are read from and what was read before does not matter. -/
theorem unescapeFrom_ok {index : Nat} {read out cs : List Char} (h : unescapeFrom index read cs = .ok out) :
    ∃ ds, ∀ index read, unescapeFrom index read cs = .ok (read.reverse ++ ds) := by
  fun_induction unescapeFrom index read cs with
  | case1 => exact ⟨[], fun index read => by rw [unescapeFrom, List.append_nil]⟩
  | case2 => cases h
  | case3 index read c cs hmark name rest hname d hreferent ih =>
    obtain ⟨ds, hds⟩ := ih h
    refine ⟨d :: ds, fun index read => ?_⟩
    have hword : name.all (!isMark ·) = true := List.all_takeWhile
    have hcs : cs = name ++ ';' :: rest := by rw [← hname, List.takeWhile_append_dropWhile]
    obtain rfl : c = '&' := by simpa using hmark
    obtain ⟨next, hnext⟩ : ∃ next, unescapeFrom index read ('&' :: name ++ ';' :: rest) =
        unescapeFrom next (d :: read) rest :=
      unescapeFrom_reference hword (referent_ok hreferent)
    rw [hcs, ← List.cons_append, hnext, hds, List.reverse_cons, List.append_assoc, List.singleton_append]
  | case4 => cases h
  | case5 index read c cs hplain ih =>
    obtain ⟨ds, hds⟩ := ih h
    refine ⟨c :: ds, fun index read => ?_⟩
    rw [unescapeFrom_plain (by simpa using hplain), hds, List.reverse_cons, List.append_assoc, List.singleton_append]

end Entity

theorem exists_of_map {ε α β : Type} {r : Except ε α} {f : α → β} {b : β} (h : r.map f = .ok b) :
    ∃ a, r = .ok a ∧ f a = b := by
  cases r with
  | error cause => cases h
  | ok a => exact ⟨a, rfl, Except.ok.inj h⟩

namespace StartTag

theorem readText_eq_ok_iff {bytes : Bytes} {text : String} :
    readText bytes = .ok text ↔
      ∃ cs, Utf8.decodeChars bytes = .ok cs ∧ Entity.unescapeChars cs = .ok text.toList := by
  constructor
  · intro h
    obtain ⟨s, hdecode, hunescape⟩ := ok_of_bind h
    obtain ⟨cs, hcs, rfl⟩ := exists_of_map (ok_of_mapError hdecode)
    obtain ⟨ds, hds, rfl⟩ := exists_of_map (ok_of_mapError hunescape)
    rw [String.toList_ofList] at hds
    exact ⟨cs, hcs, by rwa [String.toList_ofList]⟩
  · rintro ⟨cs, hcs, hds⟩
    simp [readText, Utf8.decode, Entity.unescape, hcs, hds, Except.map, Except.mapError, bind, Except.bind]

/-- A text can be read without its first character, unless that begins a reference. -/
theorem readText_behind {c : Char} {bytes : Bytes} {text : String} (hc : c ≠ '&')
    (h : readText (String.utf8EncodeChar c ++ bytes) = .ok text) : ∃ text, readText bytes = .ok text := by
  obtain ⟨cs, hdecode, hunescape⟩ := readText_eq_ok_iff.mp h
  obtain ⟨next, hnext⟩ := Utf8.decodeFrom_utf8EncodeChar 0 [] c bytes
  rw [Utf8.decodeChars, hnext] at hdecode
  obtain ⟨cs', hcs⟩ := Utf8.decodeFrom_ok hdecode
  obtain rfl : c :: cs' = cs := by simpa [hdecode] using (hcs next [c]).symm
  rw [Entity.unescapeChars, Entity.unescapeFrom_plain hc] at hunescape
  obtain ⟨ds, hds⟩ := Entity.unescapeFrom_ok hunescape
  exact ⟨String.ofList ds, readText_eq_ok_iff.mpr ⟨cs', hcs 0 [], by rw [String.toList_ofList]; exact hds 0 []⟩⟩

end StartTag

namespace Token

theorem next_text_append {a : Bytes} (hne : a ≠ []) (h : ∀ b ∈ a, b ≠ lessThan) (bytes : Bytes) :
    next (a ++ bytes) = .ok (some (.text (a ++ bytes.takeWhile (· != lessThan)),
      bytes.dropWhile (· != lessThan))) := by
  cases a with
  | nil => exact absurd rfl hne
  | cons c a =>
    have hc : ¬(c == lessThan) = true := by simpa using h c List.mem_cons_self
    have ha : ∀ b ∈ a, (b != lessThan) = true := fun b hb => by simpa using h b (List.mem_cons_of_mem _ hb)
    rw [List.cons_append, next, if_neg hc, List.takeWhile_append_of_pos ha, List.dropWhile_append_of_pos ha]
    rfl

end Token

namespace Reader

variable {bytes rest after : Bytes} {e : Element} {t : Token} {p : Progress}

theorem feed_initial_passed (ht : t.Passed) (h : initial.feed t = .ok p) : p = .reading initial := by
  cases t with
  | text raw =>
    obtain ⟨text, -, h⟩ := ok_of_bind h
    cases h
    split <;> rfl
  | cdata | comment | «instruction» =>
    cases h
    rfl
  | _ => exact ht.elim

/-- In front of the root a token that is passed leaves the reader as it was. -/
theorem Ends.behind (h : initial.Ends bytes e after) (hnext : Token.next bytes = .ok (some (t, rest))) (ht : t.Passed) :
    initial.feed t = .ok (.reading initial) ∧ initial.Ends rest e after := by
  cases h with
  | here first fed =>
    rw [hnext] at first
    cases first
    cases feed_initial_passed ht fed
  | further first fed ends =>
    rw [hnext] at first
    cases first
    cases feed_initial_passed ht fed
    exact ⟨fed, ends⟩

/-- A character that is no markup may be missing in front of the root. -/
theorem Ends.behind_char {c : Char} (hopen : c ≠ '<') (hmark : c ≠ '&')
    (h : initial.Ends (String.utf8EncodeChar c ++ bytes) e after) : initial.Ends bytes e after := by
  have hne : String.utf8EncodeChar c ≠ [] := by
    obtain ⟨lead, more, heq, -⟩ := Utf8.head_utf8EncodeChar c []
    rw [heq]
    exact List.cons_ne_nil lead more
  have hplain : ∀ b ∈ String.utf8EncodeChar c, b ≠ Token.lessThan := by
    rintro b hb rfl
    exact hopen (Char.toNat_inj.mp (Utf8.eq_of_mem_utf8EncodeChar hb (by decide)).symm)
  obtain ⟨hfeed, hrest⟩ := h.behind (Token.next_text_append hne hplain bytes) trivial
  obtain ⟨_, hread, -⟩ := ok_of_bind hfeed
  obtain ⟨text, hread⟩ := StartTag.readText_behind hmark hread
  cases bytes with
  | nil => exact hrest
  | cons b bytes =>
    -- the rest of the text is a token of its own, unless the character was all of it
    by_cases hb : b = Token.lessThan
    · rwa [List.dropWhile_cons_of_neg (by simpa using hb)] at hrest
    · have hnext : Token.next (b :: bytes) = .ok (some (.text ((b :: bytes).takeWhile (· != Token.lessThan)),
          (b :: bytes).dropWhile (· != Token.lessThan))) := by
        rw [Token.next, if_neg (by simpa using hb), List.takeWhile_cons_of_pos (by simpa using hb),
          List.dropWhile_cons_of_pos (by simpa using hb)]
      refine .further hnext ?_ hrest
      simp only [feed, hread, bind, Except.bind]
      split <;> rfl

theorem Ends.dropSpace (h : initial.Ends bytes e after) : initial.Ends (bytes.dropWhile isAsciiSpace) e after := by
  induction bytes with
  | nil => exact h
  | cons b bytes ih =>
    by_cases hb : isAsciiSpace b = true
    · rw [List.dropWhile_cons_of_pos hb]
      refine ih ?_
      have hspace : b = 32 ∨ b = 9 ∨ b = 13 ∨ b = 10 ∨ b = 12 := by
        simpa [isAsciiSpace, Token.isSpace, or_assoc] using hb
      rcases hspace with rfl | rfl | rfl | rfl | rfl
      · exact h.behind_char (c := ' ') (by decide) (by decide)
      · exact h.behind_char (c := '\t') (by decide) (by decide)
      · exact h.behind_char (c := '\r') (by decide) (by decide)
      · exact h.behind_char (c := '\n') (by decide) (by decide)
      · exact h.behind_char (c := '\x0c') (by decide) (by decide)
    · rwa [List.dropWhile_cons_of_neg hb]

theorem Ends.dropByteOrderMark (h : initial.Ends bytes e after) : initial.Ends (dropByteOrderMark bytes) e after := by
  unfold SoapNode.dropByteOrderMark
  split
  · exact h.behind_char (c := '\uFEFF') (by decide) (by decide)
  · exact h

/-- What is cut in front of a document the reader does not need. -/
theorem Ends.stripDeclaration (h : initial.Ends (SoapNode.dropByteOrderMark bytes) e after) :
    initial.Ends (stripDeclaration bytes) e after := by
  unfold SoapNode.stripDeclaration
  dsimp only
  split
  · rename_i hdeclaration
    split
    · rename_i rest hafter
      exact (h.dropSpace.behind (DoctypeWithin.next_of_afterDeclaration hdeclaration hafter) trivial).2.dropSpace
    · exact h
  · exact h

end Reader

/-- A document is read the same once its beginning was cut. -/
theorem Element.parse_stripDeclaration {bytes : Bytes} {e : Element} (h : parse bytes = .ok e) :
    parse (stripDeclaration bytes) = .ok e := by
  obtain ⟨after, hends⟩ := Reader.run_eq_ok_iff.mp h
  exact hends.stripDeclaration.dropByteOrderMark.run

end SoapNode
