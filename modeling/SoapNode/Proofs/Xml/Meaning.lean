import SoapNode.Proofs.Xml.Resolution
import SoapNode.Proofs.Xml.Scoped
import SoapNode.Proofs.Xml.Trees

/-!
# Texts keep their meaning

The text of a qualified name is read against the declarations on the way down to it. It means the same on
the way down from an element that was taken out with the bindings in scope around it, and again after the
element was written and read: what the writer leaves out was in effect already, and what it adds is only
what the prefixes of the names mean in any case.
-/

namespace SoapNode

namespace Scopes

variable {a b c inner outer : Scopes}

theorem covers_of_resolve (h : ∀ p, a.resolve p = b.resolve p) : Covers a b :=
  ⟨fun p uri hp => (h p).trans hp, by rw [h]⟩

theorem lookup_reverse_of_nodup {frame : List PrefixBinding} (h : (frame.map Prod.fst).Nodup) (p : String) :
    frame.reverse.lookup p = frame.lookup p := by
  cases hlookup : frame.lookup p with
  | none =>
    rw [lookup_eq_none_iff] at hlookup ⊢
    exact fun b hb => hlookup b (List.mem_reverse.mp hb)
  | some uri => exact lookup_reverse_of_mem h (mem_of_lookup hlookup)

/-- What a prefix means behind a tag that is written, beside what it means in the tag: it is declared there with its
meaning, or neither tag says anything about it. -/
theorem resolve_written {t : StartTag} (ht : t.Stands outer) (inner : Scopes) {p : String} (hxml : p ≠ "xml") :
    (∃ uri, resolve (t.writtenFrame inner :: inner) p = some uri ∧
      (resolve (t.declarations :: outer) p).getD "" = uri) ∨
      resolve (t.writtenFrame inner :: inner) p = resolve inner p ∧
      resolve (t.declarations :: outer) p = resolve outer p := by
  have hd := StartTag.declares_writtenFrame ht.writable inner
  cases hown : t.declarations.reverse.lookup p with
  | some uri =>
    refine .inl ⟨uri, hd.declared (p, uri) (List.mem_reverse.mp (mem_of_lookup hown)), ?_⟩
    rw [resolve_cons _ _ hxml, hown]
    rfl
  | none =>
    cases hnew : (t.writtenFrame inner).reverse.lookup p with
    | some uri =>
      refine .inl ⟨uri, ?_, ht.means (p, uri) (hd.fits.subset _ (List.mem_reverse.mp (mem_of_lookup hnew)))⟩
      rw [resolve_cons _ _ hxml, hnew]
      rfl
    | none =>
      refine .inr ⟨?_, ?_⟩
      · rw [resolve_cons _ _ hxml, hnew, Option.none_or]
      · rw [resolve_cons _ _ hxml, hown, Option.none_or]

/-- The declarations that are written say all that the declarations of the tag say. -/
theorem covers_written {t : StartTag} (ht : t.Stands outer) (h : Covers inner outer) :
    Covers (t.writtenFrame inner :: inner) (t.declarations :: outer) := by
  constructor
  · intro p uri hp
    by_cases hxml : p = "xml"
    · subst hxml
      rwa [resolve_xml] at hp ⊢
    · obtain ⟨uri', hresolve, hmeans⟩ | ⟨hinner, houter⟩ := resolve_written ht inner hxml
      · rw [hp] at hmeans
        rw [hresolve, ← hmeans, Option.getD_some]
      · rw [hinner]
        exact h.resolve p uri (houter ▸ hp)
  · obtain ⟨uri, hresolve, hmeans⟩ | ⟨hinner, houter⟩ := resolve_written ht inner (show "" ≠ "xml" by decide)
    · rw [hresolve, hmeans, Option.getD_some]
    · rw [hinner, houter]
      exact h.default

end Scopes

namespace Element

/-- The elements on a way down, by the places of the elements among those of their parent. -/
def descend (e : Element) : List Nat → Option (List Element)
  | [] => some [e]
  | i :: way => e.elements[i]?.bind (fun child => (child.descend way).map (e :: ·))

theorem descend_cons_iff {e : Element} {i : Nat} {way : List Nat} {path : List Element} :
    e.descend (i :: way) = some path ↔
      ∃ child rest, e.elements[i]? = some child ∧ child.descend way = some rest ∧ path = e :: rest := by
  rw [descend, Option.bind_eq_some_iff]
  refine exists_congr fun child => ?_
  rw [Option.map_eq_some_iff]
  exact ⟨fun ⟨hchild, rest, hrest, heq⟩ => ⟨rest, hchild, hrest, heq.symm⟩,
    fun ⟨rest, hchild, hrest, heq⟩ => ⟨hchild, rest, hrest, heq.symm⟩⟩

variable {b e : Element} {way : List Nat} {path : List Element} {inner outer : Scopes} {inherited : List PrefixBinding}

/-! ### An element that is written and read -/

theorem filterMap_settleAll (inner : Scopes) (run : String) (ns : List Node) :
    (Node.settleAll inner run ns).filterMap Node.element? = (ns.filterMap Node.element?).map (·.settle inner) := by
  have hrun : ∀ run, (Node.ofRun run).filterMap Node.element? = [] := by
    intro run
    unfold Node.ofRun
    split <;> rfl
  induction ns generalizing run with
  | nil => exact hrun run
  | cons n ns ih =>
    cases n with
    | text s => exact ih (run ++ s)
    | element tag children =>
      have hsettle : Node.settleAll inner run (.element tag children :: ns) =
          Node.ofRun run ++ (Element.settle inner ⟨tag, children⟩).toNode :: Node.settleAll inner "" ns := rfl
      rw [hsettle, List.filterMap_append, hrun, List.nil_append, List.filterMap_cons_some (element?_toNode _), ih,
        List.filterMap_cons_some (show (Node.element tag children).element? = some ⟨tag, children⟩ from rfl),
        List.map_cons]

theorem elements_settle (inner : Scopes) (e : Element) :
    (e.settle inner).elements = e.elements.map (·.settle (e.tag.writtenFrame inner :: inner)) :=
  filterMap_settleAll _ _ _

theorem every_of_mem {P : Scopes → StartTag → Prop} (h : e.toNode.Every P outer) {child : Element}
    (hchild : child ∈ e.elements) : child.toNode.Every P (e.declarations :: outer) := by
  obtain ⟨n, hn, hchild⟩ := List.mem_filterMap.mp hchild
  have hn := Node.everyIn_iff.mp h.2 n hn
  cases n with
  | text _ => cases hchild
  | element tag children =>
    cases hchild
    exact hn

theorem Stands.of_mem (h : e.Stands outer) {child : Element} (hchild : child ∈ e.elements) :
    child.Stands (e.declarations :: outer) :=
  every_of_mem h hchild

/-- On the way down in what is read back, the scopes cover those of the element as it was. -/
theorem descend_settle (h : e.Stands outer) (hcovers : Scopes.Covers inner outer) (hpath : e.descend way = some path) :
    ∃ path', (e.settle inner).descend way = some path' ∧
      Scopes.Covers (scopesOf path' ++ inner) (scopesOf path ++ outer) := by
  have hwritten := Scopes.covers_written h.1 hcovers
  induction way generalizing e inner outer path with
  | nil =>
    cases hpath
    exact ⟨[e.settle inner], rfl, hwritten⟩
  | cons i way ih =>
    obtain ⟨child, rest, hchild, hrest, rfl⟩ := descend_cons_iff.mp hpath
    have hstands := h.of_mem (List.mem_of_getElem? hchild)
    obtain ⟨rest', hrest', hcovers'⟩ := ih hstands hwritten hrest (Scopes.covers_written hstands.1 hwritten)
    refine ⟨e.settle inner :: rest', descend_cons_iff.mpr ⟨_, rest', ?_, hrest', rfl⟩, ?_⟩
    · rw [elements_settle, List.getElem?_map, hchild, Option.map_some]
    · rw [scopesOf_cons, scopesOf_cons, List.append_assoc, List.append_assoc]
      exact hcovers'

/-! ### An element that is taken out -/

theorem lookup_addMissing (bound inherited : List PrefixBinding) (p : String) :
    (addMissing bound inherited).lookup p = (bound.lookup p).or (inherited.lookup p) := by
  induction inherited generalizing bound with
  | nil => exact Option.or_none.symm
  | cons b inherited ih =>
    rw [addMissing, List.foldl_cons]
    change (addMissing _ inherited).lookup p = _
    rw [ih]
    split
    · rename_i hany
      by_cases hp : p = b.1
      · obtain ⟨c, hc, hcb⟩ := List.any_eq_true.mp hany
        cases hlookup : bound.lookup p with
        | none => exact absurd ((beq_iff_eq.mp hcb).trans hp.symm) (Scopes.lookup_eq_none_iff.mp hlookup c hc)
        | some uri => rfl
      · rw [List.lookup_cons, beq_eq_false_iff_ne.mpr hp]
    · rw [List.lookup_append, Option.or_assoc, List.lookup_cons, List.lookup_cons, List.lookup_nil]
      by_cases hp : p = b.1
      · rw [hp, beq_self_eq_true]
        rfl
      · rw [beq_eq_false_iff_ne.mpr hp, Option.none_or]

theorem nodup_addMissing {bound : List PrefixBinding} (h : (bound.map Prod.fst).Nodup)
    (inherited : List PrefixBinding) : ((addMissing bound inherited).map Prod.fst).Nodup := by
  induction inherited generalizing bound with
  | nil => exact h
  | cons b inherited ih =>
    rw [addMissing, List.foldl_cons]
    split
    · exact ih h
    · rename_i hany
      refine ih ?_
      rw [List.map_append, List.map_singleton, List.nodup_append]
      refine ⟨h, by simp, ?_⟩
      intro p hp q hq heq
      obtain ⟨c, hc, rfl⟩ := List.mem_map.mp hp
      exact hany (List.any_eq_true.mpr ⟨c, hc, beq_iff_eq.mpr (heq.trans (List.mem_singleton.mp hq))⟩)

/-- Bindings that say what the scopes around an element say. -/
structure Merges (inherited : List PrefixBinding) (outer : Scopes) : Prop where
  lookup : ∀ p ≠ "xml", inherited.lookup p = outer.resolve p
  legal : ∀ b : PrefixBinding, inherited.lookup b.1 = some b.2 → PrefixBinding.Legal b

theorem merges_of_lookup {s t : StartTag} (hs : s.WellFormed) (ht : t.WellFormed)
    (h : ∀ p, inherited.lookup p = (t.declarations.lookup p).or (s.declarations.lookup p)) :
    Merges inherited [t.declarations, s.declarations] := by
  constructor
  · intro p hxml
    have hnil : Scopes.resolve [] p = none := Scopes.resolve_of_ne_xml _ hxml
    rw [h, Scopes.resolve_cons _ _ hxml, Scopes.resolve_cons _ _ hxml, hnil, Option.or_none,
      Scopes.lookup_reverse_of_nodup ht.once, Scopes.lookup_reverse_of_nodup hs.once]
  · intro b hb
    rw [h, Option.or_eq_some_iff] at hb
    rcases hb with hb | ⟨-, hb⟩
    · exact ht.legal b (Scopes.mem_of_lookup hb)
    · exact hs.legal b (Scopes.mem_of_lookup hb)

theorem Merges.resolve (h : Merges inherited outer) {frame : List PrefixBinding}
    (hframe : (frame.map Prod.fst).Nodup) (p : String) :
    Scopes.resolve [addMissing frame inherited] p = Scopes.resolve (frame :: outer) p := by
  by_cases hxml : p = "xml"
  · rw [hxml, Scopes.resolve_xml, Scopes.resolve_xml]
  · have hnil : Scopes.resolve [] p = none := Scopes.resolve_of_ne_xml _ hxml
    rw [Scopes.resolve_cons _ _ hxml, Scopes.resolve_cons _ _ hxml, Scopes.lookup_reverse_of_nodup hframe,
      Scopes.lookup_reverse_of_nodup (nodup_addMissing hframe inherited), lookup_addMissing, h.lookup p hxml,
      hnil, Option.or_none]

theorem Merges.stands {t : StartTag} (hm : Merges inherited outer) (h : t.Stands outer) :
    StartTag.Stands [] { t with declarations := addMissing t.declarations inherited } := by
  have hlegal : ∀ b ∈ addMissing t.declarations inherited, PrefixBinding.Legal b := by
    intro b hb
    rcases mem_addMissing hb with hb | ⟨hlookup, -⟩
    · exact h.wellFormed.legal b hb
    · exact hm.legal b hlookup
  have hwell : StartTag.WellFormed { t with declarations := addMissing t.declarations inherited } :=
    { h.wellFormed with legal := hlegal, once := nodup_addMissing h.wellFormed.once inherited }
  refine ⟨hwell, ?_, h.reserved⟩
  intro b hb
  rcases List.mem_append.mp hb with hb | hb
  · rw [hwell.means_declared [] hb]
    rfl
  · rw [hm.resolve h.wellFormed.once]
    exact h.means b (List.mem_append_right _ hb)

/-- An element that was taken out stands on its own. -/
theorem Stands.inherit (h : b.Stands outer) (hm : Merges inherited outer) : (b.inherit inherited).Stands [] :=
  ⟨hm.stands h.1, Node.EveryIn.congr (P := StartTag.Stands) (fun _ _ _ hresolve => StartTag.Stands.congr hresolve)
    (fun p => (hm.resolve h.1.wellFormed.once p).symm) h.2⟩

theorem descend_inherit (h : b.Stands outer) (hm : Merges inherited outer) (hpath : b.descend way = some path) :
    ∃ path', (b.inherit inherited).descend way = some path' ∧
      ∀ p, (scopesOf path').resolve p = Scopes.resolve (scopesOf path ++ outer) p := by
  have hresolve := hm.resolve h.1.wellFormed.once
  cases way with
  | nil =>
    cases hpath
    exact ⟨[b.inherit inherited], rfl, hresolve⟩
  | cons i way =>
    obtain ⟨child, rest, hchild, hrest, rfl⟩ := descend_cons_iff.mp hpath
    refine ⟨b.inherit inherited :: rest, descend_cons_iff.mpr ⟨child, rest, hchild, hrest, rfl⟩, fun p => ?_⟩
    rw [scopesOf_cons, scopesOf_cons, List.append_assoc]
    exact Scopes.resolve_congr hresolve (scopesOf rest) p

/-- Every text in an element means behind these ancestors what it means in the element that was taken out, and
in the one that is read when that was written. -/
def KeepsMeaning (above : List Element) (b taken : Element) : Prop :=
  ∃ again, parse taken.toBytes = .ok again ∧ ∀ way path, b.descend way = some path →
    ∃ path' path'', taken.descend way = some path' ∧ again.descend way = some path'' ∧
      ∀ text q, resolveQName text (above ++ path) = some q →
        resolveQName text path' = some q ∧ resolveQName text path'' = some q

theorem keepsMeaning_inherit {above : List Element} (h : b.Stands (scopesOf above))
    (hm : Merges inherited (scopesOf above)) : KeepsMeaning above b (b.inherit inherited) := by
  have hstands := h.inherit hm
  refine ⟨_, parse_toBytes hstands.writable, ?_⟩
  intro way path hpath
  obtain ⟨path', hpath', hresolve⟩ := descend_inherit h hm hpath
  obtain ⟨path'', hpath'', hcovers⟩ := descend_settle hstands (Scopes.Covers.refl []) hpath'
  refine ⟨path', path'', hpath', hpath'', fun text q hq => ?_⟩
  rw [List.append_nil, List.append_nil] at hcovers
  have htaken : resolveQName text path' = some q := by
    refine resolveQName_of_covers (Scopes.covers_of_resolve (fun p => ?_)) hq
    rw [hresolve, scopesOf_append]
  exact ⟨htaken, resolveQName_of_covers hcovers htaken⟩

end Element

end SoapNode
