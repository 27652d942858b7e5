import SoapNode.Proofs.Xml.Scoped
import SoapNode.Proofs.Xml.Trees

/-!
# Tags that declare a prefix twice

Outside of all scopes the writer puts every declaration of a tag and every binding of its attributes on the
tag. If two of them give one prefix two meanings, then the prefix is declared twice, and the reader refuses
the key that it has seen before.
-/

namespace SoapNode

open Name

namespace StartTag

variable {t t' : StartTag} {frame : List PrefixBinding} {outer scopes : Scopes} {b c : PrefixBinding}

/-! ### What is written on the tag -/

theorem subset_need : frame ⊆ need outer frame b := by
  unfold need
  split
  · exact List.Subset.refl frame
  · exact List.subset_append_left frame [b]

theorem mem_need (hxml : b.1 ≠ "xml") : b ∈ need [] frame b := by
  unfold need
  split
  · rename_i hresolve
    rw [Scopes.resolve_cons _ _ hxml, Scopes.resolve_of_ne_xml _ hxml, List.findSome?_nil, Option.or_none] at hresolve
    exact List.mem_reverse.mp (Scopes.mem_of_lookup hresolve)
  · exact List.mem_append_right frame (List.mem_singleton.mpr rfl)

theorem subset_foldl_need (outer : Scopes) (bs frame : List PrefixBinding) : frame ⊆ bs.foldl (need outer) frame := by
  induction bs generalizing frame with
  | nil => exact List.Subset.refl frame
  | cons b bs ih => exact List.Subset.trans subset_need (ih (need outer frame b))

theorem mem_foldl_need {bs : List PrefixBinding} (frame : List PrefixBinding) (hb : b ∈ bs) (hxml : b.1 ≠ "xml") :
    b ∈ bs.foldl (need []) frame := by
  induction bs generalizing frame with
  | nil => cases hb
  | cons c bs ih =>
    rw [List.foldl_cons]
    rcases List.mem_cons.mp hb with rfl | hb
    · exact subset_foldl_need [] bs _ (mem_need hxml)
    · exact ih _ hb

theorem subset_needName (outer : Scopes) (frame : List PrefixBinding) (t : StartTag) :
    frame ⊆ needName outer frame t := by
  unfold needName
  split
  · exact List.Subset.refl frame
  · exact List.subset_append_left frame _

/-- Outside of all scopes all that a tag declares and all that its attributes need is written. -/
theorem mem_writtenFrame (hb : b ∈ t.declarations ++ t.attributeBindings) (hxml : b.1 ≠ "xml") :
    b ∈ t.writtenFrame [] := by
  rcases List.mem_append.mp hb with hb | hb
  · apply subset_foldl_need
    apply subset_needName
    exact mem_foldl_need [] hb hxml
  · exact mem_foldl_need _ hb hxml

theorem foldl_need_subset {bs ts : List PrefixBinding} (hbs : bs ⊆ ts) (hframe : frame ⊆ ts) :
    bs.foldl (need outer) frame ⊆ ts := by
  induction bs generalizing frame with
  | nil => exact hframe
  | cons b bs ih =>
    obtain ⟨hb, hbs⟩ := List.cons_subset.mp hbs
    apply ih hbs
    unfold need
    split
    · exact hframe
    · exact List.append_subset.mpr ⟨hframe, List.cons_subset.mpr ⟨hb, List.nil_subset ts⟩⟩

theorem writtenFrame_subset (outer : Scopes) (t : StartTag) : t.writtenFrame outer ⊆ t.bindings := by
  apply foldl_need_subset (fun b hb => mem_bindings_of_attribute hb)
  have hown : t.declarations.foldl (need outer) [] ⊆ t.bindings :=
    foldl_need_subset (fun b hb => mem_bindings_of_declared hb) (List.nil_subset _)
  unfold needName
  split
  · exact hown
  · exact List.append_subset.mpr ⟨hown, List.cons_subset.mpr ⟨t.nameBinding_mem_bindings, List.nil_subset _⟩⟩

theorem legible_key_of_isNCName {i : Nat} {a : Attribute} (hlocal : isNCName a.name.localPart = true)
    (htag : ∀ p ∈ a.tagPrefix, isNCName p = true) : Legible (attributeKey i a).toList := by
  unfold attributeKey
  split
  · exact legible hlocal
  · split
    · simpa using (legible (show isNCName "xml" = true by decide)).append_colon (legible hlocal)
    · simpa using (legible (isNCName_attributePrefix htag)).append_colon (legible hlocal)

/-- The tag of a well-formed document is cut where it should be, also if it declares a prefix twice. -/
theorem WellFormed.spelled (h : t.WellFormed) (hframe : frame ⊆ t.bindings) : Spelled t frame := by
  constructor
  · unfold writtenName
    split
    · exact legible h.localPart
    · rename_i hne
      have hprefix := (h.spelledPrefix t.nameBinding_mem_bindings).resolve_left (by simpa [nameBinding] using hne)
      exact (legible hprefix).append_colon (legible h.localPart)
  · intro p hp
    rcases List.mem_append.mp hp with hp | hp
    · obtain ⟨b, hb, rfl⟩ := List.mem_map.mp hp
      exact legible_bindingPair (h.spelledPrefix (hframe hb))
    · obtain ⟨⟨a, i⟩, hmem, rfl⟩ := List.mem_map.mp hp
      have ha := mem_of_mem_zipIdx hmem
      exact legible_key_of_isNCName (h.attributeLocalPart a ha) (h.attributePrefix a ha)

/-! ### What the reader makes of it -/

/-- A pair that is read next has a key that was not seen before. -/
theorem fresh_of_nextAttribute {total : Nat} {seen : List RawAttribute} {key value : String} {rest : Bytes}
    {next : Option (RawAttribute × Bytes)} (hkey : Legible key.toList)
    (h : nextAttribute total seen (Utf8.encodeChars (writePair key value) ++ rest) = .ok next) :
    (∀ a ∈ seen, a.key ≠ Utf8.encodeChars key.toList) ∧
      ∃ start,
        next = some (⟨start, Utf8.encodeChars key.toList, Utf8.encodeChars (Entity.escape value)⟩, rest) := by
  obtain ⟨start, hnext⟩ := nextAttribute_writePair total seen hkey value rest
  rw [h] at hnext
  split at hnext
  · cases hnext
  · rename_i hseen
    refine ⟨fun a ha => ?_, start, Except.ok.inj hnext⟩
    simpa using List.find?_eq_none.mp hseen a ha

/-- Pairs that are read have different keys. -/
theorem nodup_of_readAttributes {total : Nat} {seen : List RawAttribute} {read pairs result : List (String × String)}
    (hkeys : ∀ p ∈ pairs, Legible p.1.toList)
    (h : readAttributes total seen read (Utf8.encodeChars (writePairs pairs)) = .ok result) :
    (pairs.map Prod.fst).Nodup ∧ ∀ a ∈ seen, ∀ p ∈ pairs, a.key ≠ Utf8.encodeChars p.1.toList := by
  induction pairs generalizing seen read with
  | nil => exact ⟨List.nodup_nil, fun _ _ => nofun⟩
  | cons p pairs ih =>
    obtain ⟨key, value⟩ := p
    have hbytes : Utf8.encodeChars (writePairs ((key, value) :: pairs)) =
        Utf8.encodeChars (writePair key value) ++ Utf8.encodeChars (writePairs pairs) := by
      rw [← Utf8.encodeChars_append]
      rfl
    have hkey := hkeys (key, value) List.mem_cons_self
    rw [hbytes, readAttributes] at h
    split at h
    · cases h
    · rename_i hnext
      obtain ⟨-, start, hnone⟩ := fresh_of_nextAttribute hkey hnext
      cases hnone
    · rename_i a rest hnext
      obtain ⟨hfresh, start, hsome⟩ := fresh_of_nextAttribute hkey hnext
      cases hsome
      obtain ⟨name, -, h⟩ := ok_of_bind h
      obtain ⟨text, -, h⟩ := ok_of_bind h
      obtain ⟨hnodup, hseen⟩ := ih (fun q hq => hkeys q (List.mem_cons_of_mem _ hq)) h
      constructor
      · rw [List.map_cons, List.nodup_cons]
        refine ⟨fun hmem => ?_, hnodup⟩
        obtain ⟨q, hq, hqkey⟩ := List.mem_map.mp hmem
        exact hseen _ List.mem_cons_self q hq (by rw [hqkey])
      · intro a ha q hq
        rcases List.mem_cons.mp hq with rfl | hq
        · exact hfresh a ha
        · exact hseen a (List.mem_cons_of_mem _ ha) q hq

theorem nodup_of_read (h : Spelled t frame) (hread : read scopes (Utf8.encodeChars (t.write frame)) = .ok t') :
    (frame.map Prod.fst).Nodup := by
  obtain ⟨pairs, hpairs, -⟩ := ok_of_bind hread
  rw [rawName_write h.name, encodeChars_write, List.drop_left] at hpairs
  have hkeys := (nodup_of_readAttributes h.keys hpairs).1
  rw [List.map_append, List.nodup_append, List.map_map] at hkeys
  refine List.pairwise_map.mpr ((List.pairwise_map.mp hkeys.1).imp ?_)
  intro b c hne heq
  apply hne
  simp only [Function.comp_apply, bindingPair, heq]

/-- If a tag that was written outside of all scopes is read, then no prefix on it has two meanings. -/
theorem consistent_of_read (h : t.WellFormed)
    (hread : read scopes (Utf8.encodeChars (t.write (t.writtenFrame []))) = .ok t')
    (hb : b ∈ t.declarations ++ t.attributeBindings) (hc : c ∈ t.declarations ++ t.attributeBindings)
    (hxml : b.1 ≠ "xml") (heq : b.1 = c.1) : b.2 = c.2 := by
  have hnodup := nodup_of_read (h.spelled (writtenFrame_subset [] t)) hread
  have hfirst := Scopes.lookup_reverse_of_mem hnodup (mem_writtenFrame hb hxml)
  have hsecond := Scopes.lookup_reverse_of_mem hnodup (mem_writtenFrame hc (heq ▸ hxml))
  rw [← heq, hfirst] at hsecond
  exact Option.some.inj hsecond

end StartTag

theorem Reader.tag_of_run {r : Reader} {outer : Scopes} {tag : StartTag} {children : List Node}
    {rest : Bytes} {e : Element} (h : StartTag.Spelled tag (tag.writtenFrame outer))
    (hrun : r.run (Utf8.encodeChars ((Node.element tag children).write outer) ++ rest) = .ok e) :
    ∃ t', StartTag.read r.scopes (Utf8.encodeChars (tag.write (tag.writtenFrame outer))) = .ok t' := by
  cases children with
  | nil =>
    rw [encodeChars_childless, run_eq r (Token.next_emptyTag h rest)] at hrun
    obtain ⟨p, hfeed, -⟩ := ok_of_bind hrun
    obtain ⟨t', hread, -⟩ := ok_of_bind hfeed
    exact ⟨t', hread⟩
  | cons n ns =>
    rw [encodeChars_element, run_eq r (Token.next_startTag h _)] at hrun
    obtain ⟨p, hfeed, -⟩ := ok_of_bind hrun
    obtain ⟨t', hread, -⟩ := ok_of_bind hfeed
    exact ⟨t', hread⟩

/-! ### Documents with such a tag -/

namespace Node

variable {outer : Scopes} {tag : StartTag} {bad : Node}

/-- Nothing is read past the node, wherever it stands, as long as the prefixes mean there what they meant
to the writer. -/
def Bars (outer : Scopes) (n : Node) : Prop :=
  ∀ ⦃r : Reader⦄ ⦃rest : Bytes⦄ ⦃e : Element⦄, r.scopes.Covers outer →
    r.run (Utf8.encodeChars (n.write outer) ++ rest) ≠ .ok e

theorem bars_of_repeated (h : StartTag.Spelled tag (tag.writtenFrame outer))
    (hrepeated : ¬ ((tag.writtenFrame outer).map Prod.fst).Nodup) (children : List Node) :
    Bars outer (.element tag children) := by
  intro r rest e _ hrun
  obtain ⟨t', hread⟩ := Reader.tag_of_run h hrun
  exact hrepeated (StartTag.nodup_of_read h hread)

theorem run_behind {scopes : Scopes} (hcovers : scopes.Covers outer) (o : OpenElement)
    (os : List OpenElement) {before : List Element} (hbefore : ∀ e ∈ before, e.Writable) (hbad : bad.Bars outer)
    (after : List Node) (rest : Bytes) (e : Element) :
    Reader.run ⟨scopes, o :: os⟩
      (Utf8.encodeChars (writeAll outer (before.map Element.toNode ++ bad :: after)) ++ rest) ≠ .ok e := by
  induction before generalizing o with
  | nil =>
    rw [List.map_nil, List.nil_append, writeAll, Utf8.encodeChars_append, List.append_assoc]
    exact hbad hcovers
  | cons b before ih =>
    obtain ⟨hb, hbefore⟩ := List.forall_mem_cons.mp hbefore
    rw [List.map_cons, List.cons_append, writeAll, Utf8.encodeChars_append, List.append_assoc, Element.toNode,
      Reader.run_element hcovers _ b.tag b.children hb.1 hb.2, Reader.attach_resume]
    exact ih _ hbefore

/-- An element is not read past if one of its children is not, and those in front of it are good ones. -/
theorem bars_element (htag : tag.Writable) {before : List Element} (hbefore : ∀ e ∈ before, e.Writable)
    (hbad : bad.Bars (tag.writtenFrame outer :: outer)) (after : List Node) :
    Bars outer (.element tag (before.map Element.toNode ++ bad :: after)) := by
  intro r rest e hcovers hrun
  have hd := (StartTag.declares_writtenFrame htag outer).of_covers hcovers
  obtain ⟨n, ns, hchildren⟩ :=
    List.exists_cons_of_ne_nil (List.append_ne_nil_of_right_ne_nil (before.map Element.toNode)
      (List.cons_ne_nil bad after))
  rw [hchildren, Reader.encodeChars_element, Reader.run_startTag htag hd, Entity.escape_empty, List.nil_append,
    ← hchildren] at hrun
  exact run_behind (hcovers.cons _) _ _ hbefore hbad after _ e hrun

end Node

end SoapNode
