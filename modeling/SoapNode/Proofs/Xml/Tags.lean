import SoapNode.Proofs.Xml.CharacterData
import SoapNode.Proofs.Xml.Frames

/-!
# A written tag is read back

The content of a written tag is its name and a run of keys with quoted values. Reading it inside any
scopes that make its prefixes mean what they have to gives the tag back as `settle` says: with the
prefixes and the declarations that were written.
-/

namespace SoapNode

theorem QName.eq_of_parts {q r : QName} (huri : q.namespaceUri = r.namespaceUri) (hlocal : q.localPart = r.localPart) :
    q = r := by
  cases q
  cases r
  cases huri
  cases hlocal
  rfl

namespace StartTag

open Name

def writePairs (pairs : List (String × String)) : List Char := pairs.flatMap (fun p => writePair p.1 p.2)

theorem encodeChars_writePair (key value : String) (rest : Bytes) :
    Utf8.encodeChars (writePair key value) ++ rest =
      32 :: (Utf8.encodeChars key.toList ++
        61 :: 34 :: (Utf8.encodeChars (Entity.escape value) ++ 34 :: rest)) := by
  rw [writePair, List.cons_append, List.cons_append, Utf8.encodeChars_cons_ascii _ (by decide),
    Utf8.encodeChars_append, Utf8.encodeChars_append, Utf8.encodeChars_cons_ascii _ (by decide),
    Utf8.encodeChars_cons_ascii _ (by decide), Utf8.encodeChars_cons_ascii _ (by decide)]
  simp

theorem nextValue_written (total : Nat) (value : String) (rest : Bytes) :
    nextValue total (34 :: (Utf8.encodeChars (Entity.escape value) ++ 34 :: rest)) =
      .ok (Utf8.encodeChars (Entity.escape value), rest) := by
  have hall : ∀ b ∈ Utf8.encodeChars (Entity.escape value), (b != 34) = true := by
    intro b hb
    simpa using (Entity.ne_of_mem_encode_escape hb).2.2.1
  rw [nextValue, List.dropWhile_cons_of_neg (by decide)]
  simp only [show ((34 : UInt8) != 34 && (34 : UInt8) != 39) = false from rfl]
  rw [List.dropWhile_append_of_pos hall, List.dropWhile_cons_of_neg (by decide),
    List.takeWhile_append_of_pos hall, List.takeWhile_cons_of_neg (by decide), List.append_nil]
  rfl

theorem inKey_of_legible {cs : List Char} (h : Legible cs) {b : UInt8} (hb : b ∈ Utf8.encodeChars cs) :
    inKey b = true := by
  have hequals := h.ne_of_mem hb (m := 61) (by decide) (by decide)
  simp [inKey, hequals, h.not_isSpace hb]

/-- A written pair is the next attribute, unless its key was seen. -/
theorem nextAttribute_writePair (total : Nat) (seen : List RawAttribute) {key : String} (hkey : Legible key.toList)
    (value : String) (rest : Bytes) :
    ∃ start, nextAttribute total seen (Utf8.encodeChars (writePair key value) ++ rest) =
      match seen.find? (·.key == Utf8.encodeChars key.toList) with
      | some earlier => .error (.repeated start earlier.start)
      | none =>
        .ok (some (⟨start, Utf8.encodeChars key.toList, Utf8.encodeChars (Entity.escape value)⟩, rest)) := by
  cases hbytes : Utf8.encodeChars key.toList with
  | nil => exact absurd (Utf8.encodeChars_eq_nil_iff.mp hbytes) hkey.nonempty
  | cons first more =>
    have hfirst : Token.isSpace first = false := hkey.not_isSpace (hbytes ▸ List.mem_cons_self)
    have hmore : ∀ b ∈ more, inKey b = true :=
      fun b hb => inKey_of_legible hkey (hbytes ▸ List.mem_cons_of_mem _ hb)
    rw [encodeChars_writePair, hbytes, nextAttribute, List.dropWhile_cons_of_pos (by decide), List.cons_append,
      List.dropWhile_cons_of_neg (by simp [hfirst])]
    simp only
    rw [List.takeWhile_append_of_pos hmore, List.takeWhile_cons_of_neg (by decide), List.append_nil,
      List.dropWhile_append_of_pos hmore, List.dropWhile_cons_of_neg (by decide),
      List.dropWhile_cons_of_neg (by decide)]
    simp only [bne_self_eq_false, Bool.false_eq_true, if_false, nextValue_written, Except.map]
    exact ⟨_, rfl⟩

theorem nextAttribute_written (total : Nat) {seen : List RawAttribute} {key : String} (hkey : Legible key.toList)
    (hnew : ∀ a ∈ seen, a.key ≠ Utf8.encodeChars key.toList) (value : String) (rest : Bytes) :
    ∃ start, nextAttribute total seen (Utf8.encodeChars (writePair key value) ++ rest) =
      .ok (some (⟨start, Utf8.encodeChars key.toList, Utf8.encodeChars (Entity.escape value)⟩, rest)) := by
  obtain ⟨start, hnext⟩ := nextAttribute_writePair total seen hkey value rest
  have hseen : seen.find? (·.key == Utf8.encodeChars key.toList) = none := by
    rw [List.find?_eq_none]
    intro a ha
    simpa using hnew a ha
  rw [hseen] at hnext
  exact ⟨start, hnext⟩

theorem readAttributes_written (total : Nat) (seen : List RawAttribute) (read pairs : List (String × String))
    (hkeys : ∀ p ∈ pairs, Legible p.1.toList) (hnodup : (pairs.map Prod.fst).Nodup)
    (hnew : ∀ a ∈ seen, ∀ p ∈ pairs, a.key ≠ Utf8.encodeChars p.1.toList) :
    readAttributes total seen read (Utf8.encodeChars (writePairs pairs)) = .ok (read.reverse ++ pairs) := by
  induction pairs generalizing seen read with
  | nil =>
    have hnone : nextAttribute total seen (Utf8.encodeChars (writePairs [])) = .ok none := rfl
    rw [readAttributes]
    split
    · rename_i hbad
      rw [hnone] at hbad
      cases hbad
    · rw [List.append_nil]
    · rename_i hbad
      rw [hnone] at hbad
      cases hbad
  | cons p pairs ih =>
    obtain ⟨key, value⟩ := p
    obtain ⟨hkey, hrest⟩ := List.nodup_cons.mp hnodup
    obtain ⟨start, hnext⟩ := nextAttribute_written total (hkeys (key, value) List.mem_cons_self)
      (fun a ha => hnew a ha (key, value) List.mem_cons_self) value (Utf8.encodeChars (writePairs pairs))
    have hbytes : Utf8.encodeChars (writePairs ((key, value) :: pairs)) =
        Utf8.encodeChars (writePair key value) ++ Utf8.encodeChars (writePairs pairs) := by
      rw [← Utf8.encodeChars_append]
      rfl
    have htail := ih (⟨start, Utf8.encodeChars key.toList, Utf8.encodeChars (Entity.escape value)⟩ :: seen)
      ((key, value) :: read) (fun q hq => hkeys q (List.mem_cons_of_mem _ hq)) hrest (by
        intro a ha q hq
        rcases List.mem_cons.mp ha with rfl | ha
        · intro heq
          apply hkey
          have hkeyEq : key = q.1 := String.toList_injective (Utf8.encodeChars_injective heq)
          exact List.mem_map.mpr ⟨q, hq, hkeyEq.symm⟩
        · exact hnew a ha q (List.mem_cons_of_mem _ hq))
    rw [hbytes, readAttributes]
    split
    · rename_i hbad
      rw [hnext] at hbad
      cases hbad
    · rename_i hbad
      rw [hnext] at hbad
      cases hbad
    · rename_i a rest hgood
      rw [hnext] at hgood
      cases hgood
      simp only [Utf8.decode_encodeChars, String.ofList_toList, readText_escape, mapError_ok, bind, Except.bind]
      rw [htail]
      simp

def bindingPair (b : PrefixBinding) : String × String := (if b.1.isEmpty then "xmlns" else "xmlns:" ++ b.1, b.2)

def attributePairs (t : StartTag) : List (String × String) :=
  t.attributes.zipIdx.map (fun (a, i) => (attributeKey i a, a.value))

theorem write_eq (frame : List PrefixBinding) (t : StartTag) :
    t.write frame = t.writtenName ++ writePairs (frame.map bindingPair ++ t.attributePairs) := by
  simp only [write, writePairs, attributePairs, List.flatMap_append, List.flatMap_map, List.append_assoc]
  rfl

/-- The prefix that an attribute is written with, if it is in a namespace. -/
def settledPrefix (position : Nat) (a : Attribute) : Option String :=
  if a.name.namespaceUri.isEmpty then none
  else if a.name.namespaceUri = xmlNamespace then some "xml"
  else some (attributePrefix position a)

/-- The tag as it is read back: with the prefixes and the declarations that were written. -/
def settle (t : StartTag) (frame : List PrefixBinding) : StartTag where
  name := t.name
  tagPrefix := if t.writtenPrefix.isEmpty then none else some t.writtenPrefix
  declarations := frame
  attributes := t.attributes.zipIdx.map (fun (a, i) => { a with tagPrefix := settledPrefix i a })

theorem mem_attributeBindings {t : StartTag} {a : Attribute} {i : Nat} (h : (a, i) ∈ t.attributes.zipIdx)
    (huri : a.name.namespaceUri ≠ "") (hxml : a.name.namespaceUri ≠ xmlNamespace) :
    (attributePrefix i a, a.name.namespaceUri) ∈ t.attributeBindings := by
  refine List.mem_filterMap.mpr ⟨(a, i), h, ?_⟩
  simp [attributeBinding?, huri, hxml]

theorem attributePrefix_ne_empty (i : Nat) (a : Attribute) : attributePrefix i a ≠ "" := by
  unfold attributePrefix
  split
  · split
    · exact ne_empty (isNCName_numbered i)
    · rename_i hempty
      intro hp
      exact hempty (by rw [hp]; rfl)
  · exact ne_empty (isNCName_numbered i)

theorem attributePrefix_ne_xmlns {i : Nat} {a : Attribute} (h : a.tagPrefix ≠ some "xmlns") :
    attributePrefix i a ≠ "xmlns" := by
  have hnumbered : s!"ns{i}" ≠ "xmlns" := by
    intro heq
    have hlist := congrArg String.toList heq
    simp [toString] at hlist
  unfold attributePrefix
  split
  · split
    · exact hnumbered
    · rintro rfl
      exact h ‹_›
  · exact hnumbered

/-- How an attribute is written: bare in no namespace, else behind a prefix that means its namespace. -/
inductive Spelling (t : StartTag) (a : Attribute) (i : Nat) : Prop where
  | bare (uri : a.name.namespaceUri = "") (key : attributeKey i a = a.name.localPart)
    (settled : settledPrefix i a = none)
  | prefixed (p : String) (name : isNCName p = true) (notXmlns : p ≠ "xmlns")
    (key : attributeKey i a = p ++ ":" ++ a.name.localPart) (settled : settledPrefix i a = some p)
    (meaning : p = "xml" ∧ a.name.namespaceUri = xmlNamespace ∨ (p, a.name.namespaceUri) ∈ t.attributeBindings)

theorem spelling {t : StartTag} (ht : t.Writable) {a : Attribute} {i : Nat} (h : (a, i) ∈ t.attributes.zipIdx) :
    Spelling t a i := by
  have ha : a ∈ t.attributes := (List.mk_mem_zipIdx_iff_getElem?.mp h) |> List.mem_of_getElem?
  by_cases huri : a.name.namespaceUri = ""
  · exact .bare huri (by simp [attributeKey, huri]) (by simp [settledPrefix, huri])
  · by_cases hxml : a.name.namespaceUri = xmlNamespace
    · refine .prefixed "xml" (by decide) (by decide) ?_ ?_ (.inl ⟨rfl, hxml⟩)
      · simp only [attributeKey, hxml, show xmlNamespace.isEmpty = false from rfl, if_true,
          Bool.false_eq_true, if_false]
        rfl
      · simp only [settledPrefix, hxml, show xmlNamespace.isEmpty = false from rfl, if_true,
          Bool.false_eq_true, if_false]
    · have hmem := mem_attributeBindings h huri hxml
      refine .prefixed (attributePrefix i a) ?_ (attributePrefix_ne_xmlns (ht.reservedXmlns a ha)) ?_ ?_ (.inr hmem)
      · exact (ht.prefixes _ (mem_bindings_of_attribute hmem)).resolve_left (attributePrefix_ne_empty i a)
      · simp [attributeKey, huri, hxml]
      · simp [settledPrefix, huri, hxml]

theorem mem_of_mem_zipIdx {t : StartTag} {a : Attribute} {i : Nat} (h : (a, i) ∈ t.attributes.zipIdx) :
    a ∈ t.attributes := List.mem_of_getElem? (List.mk_mem_zipIdx_iff_getElem?.mp h)

theorem legible_attributeKey {t : StartTag} (ht : t.Writable) {a : Attribute} {i : Nat}
    (h : (a, i) ∈ t.attributes.zipIdx) : Legible (attributeKey i a).toList := by
  have hlocal := legible (ht.attributeLocalPart a (mem_of_mem_zipIdx h))
  cases spelling ht h with
  | bare _ key _ => rwa [key]
  | prefixed p name _ key _ _ =>
    rw [key]
    simpa using (legible name).append_colon hlocal

theorem declaredPrefix?_attributeKey {t : StartTag} (ht : t.Writable) {a : Attribute} {i : Nat}
    (h : (a, i) ∈ t.attributes.zipIdx) : declaredPrefix? (attributeKey i a) = none := by
  have ha := mem_of_mem_zipIdx h
  cases spelling ht h with
  | bare uri key _ =>
    rw [key]
    apply declaredPrefix?_of_not_mem (colon_not_mem (ht.attributeLocalPart a ha))
    intro hlocal
    exact ht.noDeclaration a ha (QName.eq_of_parts uri hlocal)
  | prefixed p name notXmlns key _ _ =>
    rw [key]
    exact declaredPrefix?_append (colon_not_mem name) notXmlns

theorem name_eq_of_attributeKey_eq {t : StartTag} (ht : t.Writable) {a b : Attribute} {i j : Nat}
    (ha : (a, i) ∈ t.attributes.zipIdx) (hb : (b, j) ∈ t.attributes.zipIdx)
    (h : attributeKey i a = attributeKey j b) : a.name = b.name := by
  have hcolonA := colon_not_mem (ht.attributeLocalPart a (mem_of_mem_zipIdx ha))
  have hcolonB := colon_not_mem (ht.attributeLocalPart b (mem_of_mem_zipIdx hb))
  have hsplit := congrArg splitQualified h
  cases spelling ht ha with
  | bare uriA keyA _ =>
    rw [keyA, splitQualified_of_not_mem hcolonA] at hsplit
    cases spelling ht hb with
    | bare uriB keyB _ =>
      rw [keyB, splitQualified_of_not_mem hcolonB] at hsplit
      exact QName.eq_of_parts (uriA.trans uriB.symm) (Prod.mk.inj hsplit).2
    | prefixed q nameB _ keyB _ _ =>
      rw [keyB, splitQualified_append (colon_not_mem nameB)] at hsplit
      cases (Prod.mk.inj hsplit).1
  | prefixed p nameA _ keyA _ meaningA =>
    rw [keyA, splitQualified_append (colon_not_mem nameA)] at hsplit
    cases spelling ht hb with
    | bare _ keyB _ =>
      rw [keyB, splitQualified_of_not_mem hcolonB] at hsplit
      cases (Prod.mk.inj hsplit).1
    | prefixed q nameB _ keyB _ meaningB =>
      rw [keyB, splitQualified_append (colon_not_mem nameB)] at hsplit
      obtain ⟨hp, hlocal⟩ := Prod.mk.inj hsplit
      cases hp
      have hxml : ∀ {uri : String}, (p, uri) ∈ t.attributeBindings → p = "xml" → uri = xmlNamespace :=
        fun hmem => ht.reservedXml _ (mem_bindings_of_attribute hmem)
      refine QName.eq_of_parts ?_ hlocal
      rcases meaningA with ⟨hpx, hu⟩ | hmemA
      · rcases meaningB with ⟨_, hv⟩ | hmemB
        · rw [hu, hv]
        · rw [hu, hxml hmemB hpx]
      · rcases meaningB with ⟨hpx, hv⟩ | hmemB
        · rw [hv, hxml hmemA hpx]
        · exact ht.consistent _ (mem_bindings_of_attribute hmemA) _ (mem_bindings_of_attribute hmemB) rfl

theorem declaredPrefix?_bindingPair (b : PrefixBinding) : declaredPrefix? (bindingPair b).1 = some b.1 := by
  unfold bindingPair
  by_cases hb : b.1 = ""
  · simp only [hb, String.isEmpty_iff, if_true]
    rfl
  · simp only [String.isEmpty_iff, hb, if_false]
    exact declaredPrefix?_xmlns_append b.1

theorem legible_bindingPair {b : PrefixBinding} (h : b.1 = "" ∨ isNCName b.1 = true) :
    Legible (bindingPair b).1.toList := by
  have hxmlns : Legible "xmlns".toList := legible (by decide)
  unfold bindingPair
  rcases h with hb | hb
  · rw [hb]
    exact hxmlns
  · have hkey : ("xmlns:" ++ b.1).toList = "xmlns".toList ++ ':' :: b.1.toList := by simp
    simp only [String.isEmpty_iff, ne_empty hb, if_false]
    rw [hkey]
    exact hxmlns.append_colon (legible hb)

theorem nodup_attributeKeys {t : StartTag} (ht : t.Writable) : (t.attributePairs.map Prod.fst).Nodup := by
  have hnames : (t.attributes.zipIdx.map (fun x => x.1.name)).Nodup := by
    have heq := congrArg (List.map (·.name)) (List.zipIdx_map_fst 0 t.attributes)
    rw [List.map_map] at heq
    exact heq ▸ ht.distinct
  rw [attributePairs, List.map_map]
  refine List.pairwise_map.mpr ((List.pairwise_map.mp hnames).imp_of_mem ?_)
  intro x y hx hy hne hkey
  exact hne (name_eq_of_attributeKey_eq ht hx hy hkey)

theorem nodup_keys {t : StartTag} (ht : t.Writable) {frame : List PrefixBinding} (hframe : Fits t frame) :
    ((frame.map bindingPair ++ t.attributePairs).map Prod.fst).Nodup := by
  rw [List.map_append, List.nodup_append]
  refine ⟨?_, nodup_attributeKeys ht, ?_⟩
  · rw [List.map_map]
    refine List.pairwise_map.mpr ((List.pairwise_map.mp hframe.nodup).imp ?_)
    intro b c hne hkey
    have hsome := congrArg declaredPrefix? hkey
    simp only [Function.comp_apply, declaredPrefix?_bindingPair, Option.some.injEq] at hsome
    exact hne hsome
  · intro key hkey key' hkey' heq
    obtain ⟨p, hp, rfl⟩ := List.mem_map.mp hkey
    obtain ⟨b, _, rfl⟩ := List.mem_map.mp hp
    obtain ⟨q, hq, rfl⟩ := List.mem_map.mp hkey'
    obtain ⟨⟨a, i⟩, ha, rfl⟩ := List.mem_map.mp hq
    have hsome := congrArg declaredPrefix? heq
    rw [declaredPrefix?_bindingPair, declaredPrefix?_attributeKey ht ha] at hsome
    cases hsome

theorem legible_keys {t : StartTag} (ht : t.Writable) {frame : List PrefixBinding} (hframe : Fits t frame) :
    ∀ p ∈ frame.map bindingPair ++ t.attributePairs, Legible p.1.toList := by
  intro p hp
  rcases List.mem_append.mp hp with hp | hp
  · obtain ⟨b, hb, rfl⟩ := List.mem_map.mp hp
    exact legible_bindingPair (ht.prefixes b (hframe.subset b hb))
  · obtain ⟨⟨a, i⟩, ha, rfl⟩ := List.mem_map.mp hp
    exact legible_attributeKey ht ha

theorem legible_writtenName {t : StartTag} (ht : t.Writable) : Legible t.writtenName := by
  have hlocal := legible ht.localPart
  unfold writtenName
  split
  · exact hlocal
  · rename_i hne
    have hspelling := (ht.prefixes _ t.nameBinding_mem_bindings).resolve_left (by simpa [nameBinding] using hne)
    exact (legible hspelling).append_colon hlocal

/-- A written tag that can be cut into its name and its keys. -/
structure Spelled (t : StartTag) (frame : List PrefixBinding) : Prop where
  name : Legible t.writtenName
  keys : ∀ p ∈ frame.map bindingPair ++ t.attributePairs, Legible p.1.toList

theorem Writable.spelled {t : StartTag} (ht : t.Writable) {frame : List PrefixBinding} (hframe : Fits t frame) :
    Spelled t frame :=
  ⟨legible_writtenName ht, legible_keys ht hframe⟩

theorem takeWhile_name {cs : List Char} (h : Legible cs) (pairs : List (String × String)) :
    (Utf8.encodeChars cs ++ Utf8.encodeChars (writePairs pairs)).takeWhile (!Token.isSpace ·) =
      Utf8.encodeChars cs := by
  rw [List.takeWhile_append_of_pos (fun b hb => by simp [h.not_isSpace hb])]
  cases pairs with
  | nil => simp [writePairs]
  | cons p pairs =>
    have hbytes : Utf8.encodeChars (writePairs (p :: pairs)) =
        Utf8.encodeChars (writePair p.1 p.2) ++ Utf8.encodeChars (writePairs pairs) := by
      rw [← Utf8.encodeChars_append]
      rfl
    rw [hbytes, encodeChars_writePair, List.takeWhile_cons_of_neg (by decide), List.append_nil]

theorem encodeChars_write (frame : List PrefixBinding) (t : StartTag) :
    Utf8.encodeChars (t.write frame) =
      Utf8.encodeChars t.writtenName ++ Utf8.encodeChars (writePairs (frame.map bindingPair ++ t.attributePairs)) := by
  rw [write_eq, Utf8.encodeChars_append]

theorem rawName_write {t : StartTag} (hname : Legible t.writtenName) (frame : List PrefixBinding) :
    rawName (Utf8.encodeChars (t.write frame)) = Utf8.encodeChars t.writtenName := by
  rw [encodeChars_write, rawName, takeWhile_name hname]

theorem splitQualified_writtenName {t : StartTag} (ht : t.Writable) :
    splitQualified (String.ofList t.writtenName) =
      (if t.writtenPrefix.isEmpty then none else some t.writtenPrefix, t.name.localPart) := by
  unfold writtenName
  split
  · rw [String.ofList_toList]
    exact splitQualified_of_not_mem (colon_not_mem ht.localPart)
  · rename_i hne
    have hspelling := (ht.prefixes _ t.nameBinding_mem_bindings).resolve_left (by simpa [nameBinding] using hne)
    have hlist : String.ofList (t.writtenPrefix.toList ++ ':' :: t.name.localPart.toList) =
        t.writtenPrefix ++ ":" ++ t.name.localPart := String.toList_injective (by simp)
    rw [hlist]
    exact splitQualified_append (colon_not_mem hspelling)

theorem declarations_of_pairs {t : StartTag} (ht : t.Writable) (frame : List PrefixBinding) :
    (frame.map bindingPair ++ t.attributePairs).filterMap (fun pair => (declaredPrefix? pair.1).map (·, pair.2)) =
      frame := by
  have hframe : (frame.map bindingPair).filterMap (fun pair => (declaredPrefix? pair.1).map (·, pair.2)) = frame := by
    rw [List.filterMap_map]
    have hfun : ((fun pair : String × String => (declaredPrefix? pair.1).map (·, pair.2)) ∘ bindingPair) =
        some := by
      funext b
      rw [Function.comp_apply, declaredPrefix?_bindingPair]
      rfl
    rw [hfun, List.filterMap_some]
  have hattributes : t.attributePairs.filterMap (fun pair => (declaredPrefix? pair.1).map (·, pair.2)) = [] := by
    rw [List.filterMap_eq_nil_iff]
    intro p hp
    obtain ⟨⟨a, i⟩, ha, rfl⟩ := List.mem_map.mp hp
    rw [declaredPrefix?_attributeKey ht ha]
    rfl
  rw [List.filterMap_append, hframe, hattributes, List.append_nil]

theorem attributes_of_pairs {t : StartTag} (ht : t.Writable) (frame : List PrefixBinding) :
    (frame.map bindingPair ++ t.attributePairs).filter (declaredPrefix? ·.1 |>.isNone) = t.attributePairs := by
  have hframe : (frame.map bindingPair).filter (declaredPrefix? ·.1 |>.isNone) = [] := by
    rw [List.filter_eq_nil_iff]
    intro p hp
    obtain ⟨b, _, rfl⟩ := List.mem_map.mp hp
    simp [declaredPrefix?_bindingPair]
  have hattributes : t.attributePairs.filter (declaredPrefix? ·.1 |>.isNone) = t.attributePairs := by
    rw [List.filter_eq_self]
    intro p hp
    obtain ⟨⟨a, i⟩, ha, rfl⟩ := List.mem_map.mp hp
    simp [declaredPrefix?_attributeKey ht ha]
  rw [List.filter_append, hframe, hattributes, List.nil_append]

theorem readAttribute_written {t : StartTag} (ht : t.Writable) {scopes : Scopes} {frame : List PrefixBinding}
    (hd : Declares t scopes frame) {a : Attribute} {i : Nat} (h : (a, i) ∈ t.attributes.zipIdx) :
    readAttribute (frame :: scopes) (attributeKey i a, a.value) = .ok { a with tagPrefix := settledPrefix i a } := by
  have hcolon := colon_not_mem (ht.attributeLocalPart a (mem_of_mem_zipIdx h))
  unfold readAttribute
  cases spelling ht h with
  | bare uri key settled =>
    simp only [key, splitQualified_of_not_mem hcolon, settled, QName.unqualified, ← uri]
  | prefixed p name _ key settled meaning =>
    have hresolve : Scopes.resolve (frame :: scopes) p = some a.name.namespaceUri := by
      rcases meaning with ⟨rfl, huri⟩ | hmem
      · rw [huri, Scopes.resolve_xml]
      · exact hd.attributes _ hmem
    simp only [key, splitQualified_append (colon_not_mem name), namespaceOf, hresolve, settled]
    rfl

theorem mapM_readAttribute {t : StartTag} (ht : t.Writable) {scopes : Scopes} {frame : List PrefixBinding}
    (hd : Declares t scopes frame) :
    t.attributePairs.mapM (readAttribute (frame :: scopes)) = .ok (t.settle frame).attributes := by
  have hall : ∀ l : List (Attribute × Nat), (∀ x ∈ l, x ∈ t.attributes.zipIdx) →
      (l.map (fun (a, i) => (attributeKey i a, a.value))).mapM (readAttribute (frame :: scopes)) =
        .ok (l.map (fun (a, i) => { a with tagPrefix := settledPrefix i a })) := by
    intro l hl
    induction l with
    | nil => rfl
    | cons x l ih =>
      rw [List.map_cons, List.mapM_cons, readAttribute_written ht hd (hl x List.mem_cons_self),
        ih (fun y hy => hl y (List.mem_cons_of_mem _ hy))]
      rfl
  exact hall _ (fun _ hx => hx)

theorem namespace_written {t : StartTag} {scopes : Scopes} {frame : List PrefixBinding} (hd : Declares t scopes frame) :
    (match (if t.writtenPrefix.isEmpty then none else some t.writtenPrefix : Option String) with
      | some p => namespaceOf (frame :: scopes) p
      | none => .ok ((Scopes.resolve (frame :: scopes) "").getD "")) = .ok t.name.namespaceUri := by
  have hname := hd.name
  by_cases hp : t.writtenPrefix = ""
  · rw [hp] at hname ⊢
    exact congrArg Except.ok hname
  · have huri : t.name.namespaceUri ≠ "" := by
      intro huri
      exact hp (by simp [writtenPrefix, huri])
    simp only [String.isEmpty_iff, hp, if_false, namespaceOf]
    cases hr : Scopes.resolve (frame :: scopes) t.writtenPrefix with
    | none =>
      rw [hr] at hname
      exact absurd hname.symm huri
    | some uri =>
      rw [hr] at hname
      exact congrArg Except.ok hname

/-- A written tag is read back, with the spelling that it was written in. -/
theorem read_write {t : StartTag} (ht : t.Writable) {scopes : Scopes} {frame : List PrefixBinding}
    (hd : Declares t scopes frame) : read scopes (Utf8.encodeChars (t.write frame)) = .ok (t.settle frame) := by
  have hraw := rawName_write (legible_writtenName ht) frame
  have hpairs := readAttributes_written (Utf8.encodeChars (t.write frame)).length [] [] _
    (legible_keys ht hd.fits) (nodup_keys ht hd.fits) (by simp)
  have hdrop : (Utf8.encodeChars (t.write frame)).drop (Utf8.encodeChars t.writtenName).length =
      Utf8.encodeChars (writePairs (frame.map bindingPair ++ t.attributePairs)) := by
    rw [encodeChars_write, List.drop_left]
  unfold read
  simp only [hraw, hdrop, hpairs, List.reverse_nil, List.nil_append, bind, Except.bind, Utf8.decode_encodeChars,
    mapError_ok, splitQualified_writtenName ht, declarations_of_pairs ht, attributes_of_pairs ht,
    mapM_readAttribute ht hd]
  have huri := namespace_written hd
  unfold settle
  generalize (if t.writtenPrefix.isEmpty then none else some t.writtenPrefix : Option String) = p? at huri ⊢
  cases p? with
  | none =>
    simp only [Except.ok.inj huri]
  | some p =>
    simp only at huri
    simp only [huri]

end StartTag

end SoapNode
