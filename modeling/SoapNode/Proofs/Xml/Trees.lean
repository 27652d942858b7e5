import SoapNode.Proofs.Xml.Normal
import SoapNode.Proofs.Xml.Reading
import SoapNode.Xml.Sniff

/-!
# A written tree is read back

The tokens of a written tree are its tags and its runs of escaped text. The reader opens and closes an
element for each written one and merges what stands between tags, so in any state that is inside scopes
covering the writer's it reads a written element as its settled form and goes on behind it. Sniffing
finds the name of a written element in its first tag.
-/

namespace SoapNode

open StartTag Name Token

namespace Token

/-- Bytes that a search for the end of a tag passes without ending or staying in quotes. -/
def Passes (bs : Bytes) : Prop :=
  ∀ passed rest, cutTag none passed (bs ++ rest) = cutTag none (bs.reverse ++ passed) rest

theorem passes_nil : Passes [] := fun _ _ => rfl

theorem Passes.append {a b : Bytes} (ha : Passes a) (hb : Passes b) : Passes (a ++ b) := by
  intro passed rest
  rw [List.append_assoc, ha, hb, List.reverse_append, List.append_assoc]

theorem passes_of_plain {bs : Bytes} (h : ∀ b ∈ bs, b ≠ 62 ∧ b ≠ 34 ∧ b ≠ 39) : Passes bs := by
  induction bs with
  | nil => exact passes_nil
  | cons b bs ih =>
    intro passed rest
    obtain ⟨hclose, hdouble, hsingle⟩ := h b List.mem_cons_self
    have hquote : (b == 34 || b == 39) = false := by simp [hdouble, hsingle]
    rw [List.cons_append, cutTag, if_neg (by simpa [greaterThan] using hclose), hquote, if_neg Bool.false_ne_true,
      ih (fun c hc => h c (List.mem_cons_of_mem _ hc))]
    simp

theorem cutTag_quoted {q : UInt8} {value : Bytes} (h : ∀ b ∈ value, b ≠ q) (passed rest : Bytes) :
    cutTag (some q) passed (value ++ q :: rest) = cutTag none (q :: (value.reverse ++ passed)) rest := by
  induction value generalizing passed with
  | nil =>
    rw [List.nil_append, cutTag]
    simp
  | cons b value ih =>
    rw [List.cons_append, cutTag, if_neg (by simpa using h b List.mem_cons_self),
      ih (fun c hc => h c (List.mem_cons_of_mem _ hc))]
    simp

theorem passes_legible {cs : List Char} (h : Legible cs) : Passes (Utf8.encodeChars cs) :=
  passes_of_plain (fun _ hb => ⟨h.ne_of_mem hb (by decide) (by decide), h.ne_of_mem hb (by decide) (by decide),
    h.ne_of_mem hb (by decide) (by decide)⟩)

theorem passes_writePair {key : String} (hkey : Legible key.toList) (value : String) :
    Passes (Utf8.encodeChars (writePair key value)) := by
  intro passed rest
  have hvalue : ∀ b ∈ Utf8.encodeChars (Entity.escape value), b ≠ 34 :=
    fun b hb => (Entity.ne_of_mem_encode_escape hb).2.2.1
  have hspace : Passes [32] := passes_of_plain (List.forall_mem_singleton.mpr (by decide))
  have hequals : Passes [61] := passes_of_plain (List.forall_mem_singleton.mpr (by decide))
  have hbytes := encodeChars_writePair key value []
  rw [List.append_nil] at hbytes
  rw [encodeChars_writePair, hbytes]
  rw [show ∀ l : Bytes, 32 :: l = [32] ++ l from fun _ => rfl, hspace, passes_legible hkey,
    show ∀ l : Bytes, 61 :: l = [61] ++ l from fun _ => rfl, hequals, cutTag, if_neg (by decide)]
  rw [show ((34 : UInt8) == 34 || (34 : UInt8) == 39) = true from rfl, if_pos rfl, cutTag_quoted hvalue]
  simp

theorem passes_writePairs {pairs : List (String × String)} (h : ∀ p ∈ pairs, Legible p.1.toList) :
    Passes (Utf8.encodeChars (writePairs pairs)) := by
  induction pairs with
  | nil => exact passes_nil
  | cons p pairs ih =>
    rw [show writePairs (p :: pairs) = writePair p.1 p.2 ++ writePairs pairs from rfl, Utf8.encodeChars_append]
    exact (passes_writePair (h p List.mem_cons_self) p.2).append (ih (fun q hq => h q (List.mem_cons_of_mem _ hq)))

theorem passes_write {t : StartTag} {frame : List PrefixBinding} (h : Spelled t frame) :
    Passes (Utf8.encodeChars (t.write frame)) := by
  rw [encodeChars_write]
  exact (passes_legible h.name).append (passes_writePairs h.keys)

theorem Passes.cutTag_eq {bs : Bytes} (h : Passes bs) (rest : Bytes) :
    cutTag none [] (bs ++ greaterThan :: rest) = some (bs, rest) := by
  rw [h, cutTag]
  simp

theorem head_write {t : StartTag} {frame : List PrefixBinding} (h : Spelled t frame) :
    ∃ b rest, Utf8.encodeChars (t.write frame) = b :: rest ∧ b ≠ 33 ∧ b ≠ question ∧ b ≠ slash := by
  have hname := h.name
  cases hbytes : Utf8.encodeChars t.writtenName with
  | nil => exact absurd (Utf8.encodeChars_eq_nil_iff.mp hbytes) hname.nonempty
  | cons b more =>
    have hb : b ∈ Utf8.encodeChars t.writtenName := hbytes ▸ List.mem_cons_self
    rw [encodeChars_write, hbytes]
    exact ⟨b, _, rfl, hname.ne_of_mem hb (by decide) (by decide), hname.ne_of_mem hb (by decide) (by decide),
      hname.ne_of_mem hb (by decide) (by decide)⟩

theorem getLast?_write_ne_slash {t : StartTag} {frame : List PrefixBinding} (h : Spelled t frame) :
    (Utf8.encodeChars (t.write frame)).getLast? ≠ some slash := by
  have hpairs : ∀ pairs : List (String × String), ∀ cs : List Char, Legible cs →
      (Utf8.encodeChars cs ++ Utf8.encodeChars (writePairs pairs)).getLast? ≠ some slash := by
    intro pairs cs hcs
    rcases List.eq_nil_or_concat pairs with rfl | ⟨init, p, rfl⟩
    · intro hlast
      rw [show writePairs [] = [] from rfl, Utf8.encodeChars_nil, List.append_nil] at hlast
      exact hcs.ne_of_mem (List.mem_of_getLast? hlast) (by decide) (by decide) rfl
    · have hquote : Utf8.encodeChars (writePairs (init ++ [p])) =
          Utf8.encodeChars (writePairs init) ++ (32 :: (Utf8.encodeChars p.1.toList ++
            61 :: 34 :: Utf8.encodeChars (Entity.escape p.2))) ++ [34] := by
        have hpair := encodeChars_writePair p.1 p.2 []
        rw [List.append_nil] at hpair
        rw [show writePairs (init ++ [p]) = writePairs init ++ writePair p.1 p.2 by simp [writePairs],
          Utf8.encodeChars_append, hpair]
        simp
      rw [List.concat_eq_append, hquote, ← List.append_assoc, List.getLast?_concat]
      decide
  rw [encodeChars_write]
  exact hpairs _ _ h.name

theorem ofTag_of_ne_slash {content : Bytes} (h : content.getLast? ≠ some slash) :
    ofTag content = .startTag content := by
  unfold ofTag
  split
  · rename_i b before hrev
    have hb : b ≠ slash := by
      rintro rfl
      apply h
      rw [List.getLast?_eq_head?_reverse, hrev]
      rfl
    rw [if_neg (by simpa using hb)]
  · rfl

theorem ofTag_slash (content : Bytes) : ofTag (content ++ [slash]) = .emptyTag content := by
  simp [ofTag]

theorem markup_of_plain {b : UInt8} {rest : Bytes} (h : b ≠ 33 ∧ b ≠ question ∧ b ≠ slash) :
    markup (b :: rest) = finish .tag (.ok ∘ ofTag) (cutTag none [] (b :: rest)) := by
  rw [markup, if_neg (by simpa using h.1), if_neg (by simpa using h.2.1), if_neg (by simpa using h.2.2)]

theorem next_startTag {t : StartTag} {frame : List PrefixBinding} (h : Spelled t frame) (rest : Bytes) :
    next (lessThan :: (Utf8.encodeChars (t.write frame) ++ greaterThan :: rest)) =
      .ok (some (.startTag (Utf8.encodeChars (t.write frame)), rest)) := by
  obtain ⟨b, more, hbytes, hb⟩ := head_write h
  have hcut := (passes_write h).cutTag_eq rest
  have hlast := ofTag_of_ne_slash (getLast?_write_ne_slash h)
  rw [hbytes] at hcut hlast ⊢
  rw [next, if_pos (by decide), List.cons_append, markup_of_plain hb, ← List.cons_append, hcut]
  simp only [finish, Function.comp_apply, hlast, Except.map]

theorem next_emptyTag {t : StartTag} {frame : List PrefixBinding} (h : Spelled t frame) (rest : Bytes) :
    next (lessThan :: (Utf8.encodeChars (t.write frame) ++ slash :: greaterThan :: rest)) =
      .ok (some (.emptyTag (Utf8.encodeChars (t.write frame)), rest)) := by
  obtain ⟨b, more, hbytes, hb⟩ := head_write h
  have hslash : Passes [slash] := passes_of_plain (List.forall_mem_singleton.mpr (by decide))
  have hcut := ((passes_write h).append hslash).cutTag_eq rest
  rw [List.append_assoc, List.singleton_append] at hcut
  rw [hbytes] at hcut ⊢
  rw [next, if_pos (by decide), List.cons_append, markup_of_plain hb, ← List.cons_append, hcut]
  simp only [finish, Function.comp_apply, ofTag_slash, Except.map]

theorem next_endTag {cs : List Char} (h : Legible cs) (rest : Bytes) :
    next (lessThan :: slash :: (Utf8.encodeChars cs ++ greaterThan :: rest)) =
      .ok (some (.endTag (Utf8.encodeChars cs), rest)) := by
  have hcut := (passes_legible h).cutTag_eq rest
  have hname : ofEndTag (Utf8.encodeChars cs) = .endTag (Utf8.encodeChars cs) := by
    unfold ofEndTag
    split
    · rfl
    · cases hrev : (Utf8.encodeChars cs).reverse with
      | nil => rw [List.dropWhile_nil, ← hrev, List.reverse_reverse]
      | cons b before =>
        have hb : b ∈ Utf8.encodeChars cs := List.mem_reverse.mp (hrev ▸ List.mem_cons_self)
        rw [List.dropWhile_cons_of_neg (by simp [h.not_isSpace hb]), ← hrev, List.reverse_reverse]
  rw [next, if_pos (by decide), markup, if_neg (by decide), if_neg (by decide), if_pos (by decide), hcut]
  simp only [finish, Function.comp_apply, hname, Except.map]

theorem next_text {text : Bytes} (hne : text ≠ []) (h : ∀ b ∈ text, b ≠ lessThan) (rest : Bytes) :
    next (text ++ lessThan :: rest) = .ok (some (.text text, lessThan :: rest)) := by
  cases text with
  | nil => exact absurd rfl hne
  | cons b text =>
    have hb : (b == lessThan) = false := by simpa using h b List.mem_cons_self
    have htext : ∀ c ∈ text, (c != lessThan) = true := fun c hc => by simpa using h c (List.mem_cons_of_mem _ hc)
    rw [List.cons_append, next, hb, if_neg Bool.false_ne_true, List.takeWhile_append_of_pos htext,
      List.dropWhile_append_of_pos htext, List.takeWhile_cons_of_neg (by simp),
      List.dropWhile_cons_of_neg (by simp), List.append_nil]

end Token

namespace Reader

theorem run_startTag {r : Reader} {t : StartTag} (ht : t.Writable) {frame : List PrefixBinding}
    (hd : Declares t r.scopes frame) (rest : Bytes) :
    r.run (lessThan :: (Utf8.encodeChars (t.write frame) ++ greaterThan :: rest)) =
      run ⟨frame :: r.scopes, ⟨Utf8.encodeChars t.writtenName, t.settle frame, []⟩ :: r.opened⟩ rest := by
  have hfeed : r.feed (.startTag (Utf8.encodeChars (t.write frame))) =
      .ok (.reading ⟨frame :: r.scopes, ⟨Utf8.encodeChars t.writtenName, t.settle frame, []⟩ :: r.opened⟩) := by
    simp only [feed, read_write ht hd, rawName_write (legible_writtenName ht) frame, bind, Except.bind]
    rfl
  exact run_of_next (Token.next_startTag (ht.spelled hd.fits) rest) hfeed

theorem run_emptyTag {r : Reader} {t : StartTag} (ht : t.Writable) {frame : List PrefixBinding}
    (hd : Declares t r.scopes frame) (rest : Bytes) :
    r.run (lessThan :: (Utf8.encodeChars (t.write frame) ++ slash :: greaterThan :: rest)) =
      (r.attach ⟨t.settle frame, []⟩).resume rest := by
  refine run_of_next (Token.next_emptyTag (ht.spelled hd.fits) rest) ?_
  simp only [feed, read_write ht hd, bind, Except.bind]

theorem run_endTag {scopes : Scopes} {o : OpenElement} {os : List OpenElement} {cs : List Char} (h : Legible cs)
    (ho : o.rawName = Utf8.encodeChars cs) (rest : Bytes) :
    run ⟨scopes, o :: os⟩ (lessThan :: slash :: (Utf8.encodeChars cs ++ greaterThan :: rest)) =
      (attach ⟨scopes.tail, os⟩ ⟨o.tag, o.children.reverse⟩).resume rest := by
  refine run_of_next (Token.next_endTag h rest) ?_
  simp only [feed, close, ho, if_true]

theorem run_text {scopes : Scopes} {o : OpenElement} {os : List OpenElement} (text : String) (rest : Bytes) :
    run ⟨scopes, o :: os⟩ (Utf8.encodeChars (Entity.escape text) ++ lessThan :: rest) =
      run ⟨scopes, { o with children := (Node.ofRun text).reverse ++ o.children } :: os⟩ (lessThan :: rest) := by
  by_cases hempty : text = ""
  · subst hempty
    rfl
  · have hbytes : Utf8.encodeChars (Entity.escape text) ≠ [] := by
      intro hnil
      exact hempty (Entity.escape_eq_nil_iff.mp (Utf8.encodeChars_eq_nil_iff.mp hnil))
    have hnext := Token.next_text hbytes (fun b hb => (Entity.ne_of_mem_encode_escape hb).1) rest
    have hfeed : feed ⟨scopes, o :: os⟩ (.text (Utf8.encodeChars (Entity.escape text))) =
        .ok (.reading ⟨scopes, { o with children := (Node.ofRun text).reverse ++ o.children } :: os⟩) := by
      simp only [feed, readText_escape, bind, Except.bind, Node.ofRun]
      by_cases hblank : Text.blank text = true
      · simp only [hblank, if_true]
        rfl
      · simp only [hblank]
        rfl
    exact run_of_next hnext hfeed

theorem attach_resume (scopes : Scopes) (o : OpenElement) (os : List OpenElement) (e : Element) (rest : Bytes) :
    (attach ⟨scopes, o :: os⟩ e).resume rest =
      run ⟨scopes, { o with children := e.toNode :: o.children } :: os⟩ rest :=
  rfl

theorem encodeChars_open (cs : List Char) : Utf8.encodeChars ('<' :: cs) = lessThan :: Utf8.encodeChars cs :=
  Utf8.encodeChars_cons_ascii cs (by decide)

theorem encodeChars_close (cs : List Char) : Utf8.encodeChars ('>' :: cs) = greaterThan :: Utf8.encodeChars cs :=
  Utf8.encodeChars_cons_ascii cs (by decide)

theorem encodeChars_slash (cs : List Char) : Utf8.encodeChars ('/' :: cs) = slash :: Utf8.encodeChars cs :=
  Utf8.encodeChars_cons_ascii cs (by decide)

theorem encodeChars_childless (outer : Scopes) (tag : StartTag) (rest : Bytes) :
    Utf8.encodeChars ((Node.element tag []).write outer) ++ rest =
      lessThan :: (Utf8.encodeChars (tag.write (tag.writtenFrame outer)) ++ slash :: greaterThan :: rest) := by
  simp only [Node.write, List.isEmpty_nil, if_true, Utf8.encodeChars_append, encodeChars_open, encodeChars_close,
    encodeChars_slash, List.cons_append, List.append_assoc, Utf8.encodeChars_nil, List.nil_append]

theorem encodeChars_element (outer : Scopes) (tag : StartTag) (n : Node) (ns : List Node) (rest : Bytes) :
    Utf8.encodeChars ((Node.element tag (n :: ns)).write outer) ++ rest =
      lessThan :: (Utf8.encodeChars (tag.write (tag.writtenFrame outer)) ++
        greaterThan ::
          (Utf8.encodeChars (Entity.escape "" ++ Node.writeAll (tag.writtenFrame outer :: outer) (n :: ns)) ++
          lessThan :: slash :: (Utf8.encodeChars tag.writtenName ++ greaterThan :: rest))) := by
  simp only [Node.write, List.isEmpty_cons, if_false, Utf8.encodeChars_append, encodeChars_open, encodeChars_close,
    encodeChars_slash, List.cons_append, List.append_assoc, Utf8.encodeChars_nil, List.nil_append,
    Entity.escape_empty, Bool.false_eq_true]

mutual

theorem run_element {r : Reader} {outer : Scopes} (hcovers : Scopes.Covers r.scopes outer) (rest : Bytes) :
    (tag : StartTag) → (children : List Node) → tag.Writable → Node.AllWritable children →
    r.run (Utf8.encodeChars ((Node.element tag children).write outer) ++ rest) =
      (r.attach (Element.settle outer ⟨tag, children⟩)).resume rest
  | tag, [], ht, _ => by
    have hd := (declares_writtenFrame ht outer).of_covers hcovers
    rw [encodeChars_childless, run_emptyTag ht hd]
    rfl
  | tag, n :: ns, ht, hchildren => by
    have hd := (declares_writtenFrame ht outer).of_covers hcovers
    rw [encodeChars_element, run_startTag ht hd, run_nodes _ _ (hcovers.cons _) "" _ (n :: ns) hchildren,
      run_endTag (legible_writtenName ht) rfl]
    simp [Element.settle]
termination_by _ children => 2 * sizeOf children + 1

theorem run_nodes {scopes outer : Scopes} (o : OpenElement) (os : List OpenElement)
    (hcovers : Scopes.Covers scopes outer) (text : String) (rest : Bytes) :
    (ns : List Node) → Node.AllWritable ns →
    run ⟨scopes, o :: os⟩ (Utf8.encodeChars (Entity.escape text ++ Node.writeAll outer ns) ++ lessThan :: rest) =
      run ⟨scopes, { o with children := (Node.settleAll outer text ns).reverse ++ o.children } :: os⟩
        (lessThan :: rest)
  | [], _ => by
    rw [Node.writeAll, List.append_nil, run_text]
    rfl
  | .text s :: ns, ⟨_, hns⟩ => by
    rw [Node.writeAll, Node.write, ← List.append_assoc, ← Entity.escape_append,
      run_nodes o os hcovers (text ++ s) rest ns hns]
    rfl
  | .element tag children :: ns, ⟨⟨ht, hchildren⟩, hns⟩ => by
    obtain ⟨bytes, hopen⟩ : ∃ bytes, ∀ rest,
      Utf8.encodeChars ((Node.element tag children).write outer) ++ rest =
        lessThan :: (bytes ++ rest) := by
      rw [Node.write, List.cons_append, encodeChars_open]
      exact ⟨_, fun _ => rfl⟩
    have htail := run_nodes { o with children := (Element.settle outer ⟨tag, children⟩).toNode ::
      ((Node.ofRun text).reverse ++ o.children) } os hcovers "" rest ns hns
    rw [Entity.escape_empty, List.nil_append] at htail
    rw [Node.writeAll, Utf8.encodeChars_append, Utf8.encodeChars_append, List.append_assoc, List.append_assoc, hopen,
      run_text, ← hopen, run_element hcovers _ tag children ht hchildren, attach_resume, htail]
    simp [Node.settleAll, Element.settle, Element.toNode, Node.settle]
termination_by ns => 2 * sizeOf ns

end

end Reader

theorem dropByteOrderMark_open (bytes : Bytes) : dropByteOrderMark (lessThan :: bytes) = lessThan :: bytes := rfl

namespace Element

theorem toBytes_eq (e : Element) : ∃ bytes, e.toBytes = lessThan :: bytes := by
  cases e with
  | mk tag children =>
    rw [toBytes, toChars, toNode, Node.write, List.cons_append, Reader.encodeChars_open]
    exact ⟨_, rfl⟩

theorem parse_toBytes_append {e : Element} (h : e.Writable) (rest : Bytes) :
    parse (e.toBytes ++ rest) = .ok (e.settle []) := by
  obtain ⟨bytes, hbytes⟩ := e.toBytes_eq
  rw [parse, hbytes, List.cons_append, dropByteOrderMark_open, ← List.cons_append, ← hbytes]
  exact Reader.run_element (Scopes.Covers.refl []) rest e.tag e.children h.1 h.2

theorem parse_toBytes {e : Element} (h : e.Writable) : parse e.toBytes = .ok (e.settle []) := by
  simpa using parse_toBytes_append h []

/-- Writing and reading changes nothing but runs of text, and what was read comes back as it is. -/
theorem parse_toBytes_norm {e : Element} (h : e.Writable) :
    ∃ e', parse e.toBytes = .ok e' ∧ e'.Same e.norm ∧ e'.norm = e' ∧ e'.Writable :=
  ⟨e.settle [], parse_toBytes h, same_settle [] e, norm_settle [] e, h.settle []⟩

/-- Prefixes that are shadowed and taken back, texts that are adjacent, and one of white space alone. -/
def nested : Element :=
  let inner := ((((named ⟨"urn:b", "Inner"⟩).withPrefix "p").declare "p" "urn:b").setAttribute
    ⟨"urn:c", "mark"⟩ "<&>\"").declare "" ""
  let bare := (named (.unqualified "bare")).setAttribute ⟨xmlNamespace, "lang"⟩ "en"
  let outer := (((named ⟨"urn:a", "Outer"⟩).withPrefix "p").declare "p" "urn:a").declare "" "urn:default"
  (((((outer.pushText "one ").pushText "& two").push inner).pushText " ").pushText "\n").push bare

theorem parse_toBytes_nested :
    nested.Writable ∧ ∃ e', parse nested.toBytes = .ok e' ∧ e'.Same nested.norm ∧
      e'.norm = e' ∧ e'.Writable :=
  have h : nested.Writable := by decide
  ⟨h, parse_toBytes_norm h⟩

end Element

namespace Sniff

theorem look_of_next {bytes rest : Bytes} {t : Token} (hnext : Token.next bytes = .ok (some (t, rest))) :
    look bytes = match t with
      | .startTag content | .emptyTag content => (StartTag.read [] content).map (.named ·.name)
      | .endTag name => .ok (.broken (.endUnmatched ((Utf8.decode name).toOption.getD "")))
      | .doctype => .error .doctypeNotAllowed
      | .text _ | .cdata _ | .comment | .instruction => look rest := by
  rw [look]
  split
  · rename_i hbad
    rw [hnext] at hbad
    cases hbad
  · rename_i hbad
    rw [hnext] at hbad
    cases hbad
  · rename_i hgood
    rw [hnext] at hgood
    cases hgood
    rfl

theorem look_startTag {t : StartTag} (ht : t.Writable) {frame : List PrefixBinding} (hd : Declares t [] frame)
    (rest : Bytes) :
    look (lessThan :: (Utf8.encodeChars (t.write frame) ++ greaterThan :: rest)) = .ok (.named t.name) := by
  rw [look_of_next (Token.next_startTag (ht.spelled hd.fits) rest)]
  simp only [read_write ht hd, Except.map]
  rfl

theorem look_toBytes {e : Element} (h : e.Writable) (rest : Bytes) :
    look (e.toBytes ++ rest) = .ok (.named e.name) := by
  obtain ⟨tag, children⟩ := e
  have ht : tag.Writable := h.1
  have hd := declares_writtenFrame ht []
  cases children with
  | nil =>
    rw [Element.toBytes, Element.toChars, Element.toNode, Reader.encodeChars_childless,
      look_of_next (Token.next_emptyTag (ht.spelled hd.fits) rest)]
    simp only [read_write ht hd, Except.map]
    rfl
  | cons n ns =>
    rw [Element.toBytes, Element.toChars, Element.toNode, Reader.encodeChars_element]
    exact look_startTag ht hd _

end Sniff

/-- The name of a written element is found without reading it as a whole. -/
theorem sniff_toBytes {e : Element} (h : e.Writable) : sniff e.toBytes = .ok (some e.name) := by
  have hlook := Sniff.look_toBytes h []
  obtain ⟨bytes, hbytes⟩ := e.toBytes_eq
  rw [List.append_nil] at hlook
  rw [sniff, hbytes, dropByteOrderMark_open, ← hbytes, hlook]

end SoapNode
