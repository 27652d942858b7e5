import Mathlib.Data.Finset.Card
import Mathlib.Logic.Relation
import SoapNode.Proofs.Tube.Copies
import SoapNode.Proofs.Tube.Passing

/-!
# Walks along chains

A walk goes from a tube to its first successor, also behind tubes that copies share. Destroying chains
visits every tube on the walks from their heads once. Forking adds tubes and leaves the walks of other chains
as they are; a fork has the shared part of its template's walk, and new tubes in front of it.
-/

namespace SoapNode

variable {Cell World : Type}

/-- The walk along a chain goes from one tube to another. -/
def Leads (tubes : List (Tube Cell World)) (id n : TubeId) : Prop := ∃ t, tubes[id]? = some t ∧ t.next? = some n

/-- A tube on the walk from a head. -/
def OnWalk (tubes : List (Tube Cell World)) : TubeId → TubeId → Prop := Relation.ReflTransGen (Leads tubes)

/-- A tube on the walk from a head that comes behind a shareable one, or is one. All copies of the chain have it. -/
def Shared (tubes : List (Tube Cell World)) (head id : TubeId) : Prop :=
  ∃ s, OnWalk tubes head s ∧ (∃ t, tubes[s]? = some t ∧ t.stage.shareable = true) ∧ OnWalk tubes s id

/-- The tubes that others lead to exist. -/
def Placed (tubes : List (Tube Cell World)) : Prop := ∀ id n, Leads tubes id n → n < tubes.length

section Walks

variable {tubes tubes' : List (Tube Cell World)} {head id n : TubeId} {t : Tube Cell World}

theorem leads_iff (ht : tubes[id]? = some t) : Leads tubes id n ↔ t.next? = some n := by
  constructor
  · rintro ⟨t', ht', hn⟩
    obtain rfl := Option.some.inj (ht.symm.trans ht')
    exact hn
  · intro hn
    exact ⟨t, ht, hn⟩

theorem mem_successors_of_next? (h : t.next? = some n) : n ∈ t.successors := by
  unfold Tube.next? at h
  split at h
  · cases h
  · exact List.mem_of_mem_head? h

theorem Leads.mono (htubes : tubes <+: tubes') (h : Leads tubes id n) : Leads tubes' id n := by
  obtain ⟨t, ht, hn⟩ := h
  exact ⟨t, getElem?_mono htubes ht, hn⟩

theorem OnWalk.mono (htubes : tubes <+: tubes') (h : OnWalk tubes head id) : OnWalk tubes' head id :=
  Relation.ReflTransGen.mono (fun _ _ => Leads.mono htubes) _ _ h

theorem OnWalk.lt_length (hplaced : Placed tubes) (hhead : head < tubes.length) (h : OnWalk tubes head id) :
    id < tubes.length := by
  cases h with
  | refl => exact hhead
  | tail _ hlast => exact hplaced _ _ hlast

/-- Tubes that are added change no walk. -/
theorem onWalk_iff_of_grown (htubes : tubes <+: tubes') (hplaced : Placed tubes) (hhead : head < tubes.length) :
    OnWalk tubes' head id ↔ OnWalk tubes head id := by
  refine ⟨fun h => ?_, OnWalk.mono htubes⟩
  induction h with
  | refl => exact .refl
  | tail _ hlast ih =>
    obtain ⟨t, ht, hn⟩ := hlast
    have hlt := ih.lt_length hplaced hhead
    refine ih.tail ⟨t, ?_, hn⟩
    rw [← ht, List.getElem?_eq_getElem hlt]
    exact (getElem?_mono htubes (List.getElem?_eq_getElem hlt)).symm

theorem Shared.onWalk (h : Shared tubes head id) : OnWalk tubes head id := by
  obtain ⟨s, hs, -, hid⟩ := h
  exact hs.trans hid

theorem Shared.tail (h : Shared tubes head id) (hn : Leads tubes id n) : Shared tubes head n := by
  obtain ⟨s, hs, ht, hid⟩ := h
  exact ⟨s, hs, ht, hid.tail hn⟩

theorem shared_of_shareable (h : OnWalk tubes head id) (ht : tubes[id]? = some t) (hshared : t.stage.shareable = true) :
    Shared tubes head id :=
  ⟨id, h, ⟨t, ht, hshared⟩, .refl⟩

end Walks

/-! ### Destroying -/

/-- Destroying a tube with this stage adds the tube to a record, and nothing else changes the record. -/
structure Stage.Tells (record : Store Cell World → List TubeId) (st : Stage Cell World) : Prop where
  destroy : ∀ w s, record (st.destroy w s) = record s ++ [w.self]
  copied : ∀ w s, record (st.copied w s) = record s
  exchanges : ∀ l, st.Keeps (record · = l)

namespace Plant

variable {p : Plant Cell World} {record : Store Cell World → List TubeId} {visited : List TubeId}
  {id : TubeId} {limit : Nat}

/-- What a walk has visited in the end, and what it has recorded: those that were visited before, and others once. -/
structure Visits (record : Store Cell World → List TubeId) (p : Plant Cell World) (visited : List TubeId)
    (others : TubeId → Prop) (r : List TubeId × Plant Cell World) : Prop where
  tubes : r.2.tubes = p.tubes
  fresh : ∃ fresh, r.1 = fresh ++ visited ∧ record r.2.store = record p.store ++ fresh.reverse
  nodup : r.1.Nodup
  mem : ∀ k, k ∈ r.1 ↔ k ∈ visited ∨ others k

theorem Visits.trans {others others' : TubeId → Prop} {r r' : List TubeId × Plant Cell World}
    (h : Visits record p visited others r) (h' : Visits record r.2 r.1 others' r') :
    Visits record p visited (fun k => others k ∨ others' k) r' := by
  obtain ⟨fresh, hfresh, hrecord⟩ := h.fresh
  obtain ⟨fresh', hfresh', hrecord'⟩ := h'.fresh
  refine ⟨h'.tubes.trans h.tubes, ⟨fresh' ++ fresh, ?_, ?_⟩, h'.nodup, fun k => ?_⟩
  · rw [hfresh', hfresh, List.append_assoc]
  · rw [hrecord', hrecord, List.reverse_append, List.append_assoc]
  · rw [h'.mem, h.mem, or_assoc]

theorem visits_of_mem (hnodup : visited.Nodup)
    (hended : ∀ v ∈ visited, ∀ n, Leads p.tubes v n → n ∈ visited ∨ n = id) (hid : id ∈ visited) :
    Visits record p visited (OnWalk p.tubes id) (visited, p) := by
  refine ⟨rfl, ⟨[], rfl, (List.append_nil _).symm⟩, hnodup, fun k => ⟨.inl, ?_⟩⟩
  rintro (hk | hk)
  · exact hk
  · induction hk with
    | refl => exact hid
    | tail _ hlast ih =>
      rcases hended _ ih _ hlast with hn | rfl
      · exact hn
      · exact hid

/-- Visiting one tube. -/
theorem visits_destroy {t : Tube Cell World} (htells : t.stage.Tells record) (hnodup : visited.Nodup)
    (hnew : id ∉ visited) :
    Visits record p visited (· = id)
      (id :: visited, { p with store := t.stage.destroy ⟨id, t.successors, t.cells⟩ p.store }) := by
  refine ⟨rfl, ⟨[id], rfl, htells.destroy _ _⟩, List.nodup_cons.mpr ⟨hnew, hnodup⟩, fun k => ?_⟩
  rw [List.mem_cons, or_comm]

open Finset in
theorem card_unvisited_cons (hid : id < p.tubes.length) (hnew : id ∉ visited) :
    #{k ∈ range p.tubes.length | k ∉ id :: visited} < #{k ∈ range p.tubes.length | k ∉ visited} := by
  apply card_lt_card
  refine (ssubset_iff_of_subset ?_).mpr ⟨id, by simp [hid, hnew], by simp⟩
  intro k
  simp only [mem_filter, List.mem_cons, not_or]
  rintro ⟨hk, -, hnot⟩
  exact ⟨hk, hnot⟩

theorem onWalk_iff_of_next? {t : Tube Cell World} {n k : TubeId} (ht : p.tubes[id]? = some t) (hn : t.next? = some n) :
    OnWalk p.tubes id k ↔ k = id ∨ OnWalk p.tubes n k := by
  constructor
  · intro hk
    rcases Relation.ReflTransGen.cases_head hk with rfl | ⟨m, hm, hk⟩
    · exact .inl rfl
    · obtain rfl := Option.some.inj (((leads_iff ht).mp hm).symm.trans hn)
      exact .inr hk
  · rintro (rfl | hk)
    · exact .refl
    · exact .head ((leads_iff ht).mpr hn) hk

open Finset in
/-- With room for all tubes that are not visited yet, a walk visits all that are on it. Only its first
tube may be missing among those that the visited ones lead to. -/
theorem visits_destroyFrom (htells : ∀ t ∈ p.tubes, t.stage.Tells record) (hplaced : Placed p.tubes)
    (hid : id < p.tubes.length) (hnodup : visited.Nodup)
    (hended : ∀ v ∈ visited, ∀ n, Leads p.tubes v n → n ∈ visited ∨ n = id)
    (hlimit : #{k ∈ range p.tubes.length | k ∉ visited} ≤ limit) :
    Visits record p visited (OnWalk p.tubes id) (destroyFrom limit visited id p) := by
  induction limit generalizing visited id p with
  | zero =>
    apply visits_of_mem hnodup hended
    by_contra hnew
    have hempty := card_eq_zero.mp (Nat.le_zero.mp hlimit)
    exact filter_eq_empty_iff.mp hempty (mem_range.mpr hid) hnew
  | succ limit ih =>
    rw [destroyFrom]
    split
    · rename_i hmem
      exact visits_of_mem hnodup hended (by simpa using hmem)
    · rename_i hnew
      have hnew : id ∉ visited := by simpa using hnew
      have ht := List.getElem?_eq_getElem hid
      have hfirst := visits_destroy (p := p) (htells _ (List.mem_of_getElem? ht)) hnodup hnew
      rw [ht]
      dsimp only
      split
      · rename_i n hn
        have hended' : ∀ v ∈ id :: visited, ∀ m, Leads p.tubes v m → m ∈ id :: visited ∨ m = n := by
          intro v hv m hm
          rcases List.mem_cons.mp hv with rfl | hv
          · exact .inr (Option.some.inj (((leads_iff ht).mp hm).symm.trans hn))
          · rcases hended v hv m hm with hm | rfl
            · exact .inl (List.mem_cons_of_mem id hm)
            · exact .inl List.mem_cons_self
        have hcard := card_unvisited_cons hid hnew
        have hrest := hfirst.trans (ih htells hplaced (hplaced id n ((leads_iff ht).mpr hn)) hfirst.nodup hended'
          (by dsimp only; omega))
        have hwalk : OnWalk p.tubes id = fun k => k = id ∨ OnWalk p.tubes n k := by
          funext k
          exact propext (onWalk_iff_of_next? ht hn)
        rw [hwalk]
        exact hrest
      · rename_i hn
        have hwalk : OnWalk p.tubes id = (· = id) := by
          funext k
          refine propext ⟨fun hk => ?_, fun hk => hk ▸ .refl⟩
          rcases Relation.ReflTransGen.cases_head hk with rfl | ⟨m, hm, -⟩
          · rfl
          · rw [leads_iff ht, hn] at hm
            cases hm
        rw [hwalk]
        exact hfirst

theorem visits_foldl (htells : ∀ t ∈ p.tubes, t.stage.Tells record) (hplaced : Placed p.tubes) {heads : List TubeId}
    (hheads : ∀ head ∈ heads, head < p.tubes.length) (hnodup : visited.Nodup)
    (hended : ∀ v ∈ visited, ∀ n, Leads p.tubes v n → n ∈ visited) :
    Visits record p visited (fun k => ∃ head ∈ heads, OnWalk p.tubes head k)
      (heads.foldl (fun (visited, p) head => destroyFrom p.tubes.length visited head p) (visited, p)) := by
  induction heads generalizing visited p with
  | nil => exact ⟨rfl, ⟨[], rfl, (List.append_nil _).symm⟩, hnodup, by simp⟩
  | cons head heads ih =>
    obtain ⟨hhead, hheads⟩ := List.forall_mem_cons.mp hheads
    have hcard : (Finset.filter (· ∉ visited) (Finset.range p.tubes.length)).card ≤ p.tubes.length :=
      (Finset.card_filter_le _ _).trans (Finset.card_range _).le
    have hfirst := visits_destroyFrom htells hplaced hhead hnodup (fun v hv n hn => .inl (hended v hv n hn)) hcard
    have hended' : ∀ v ∈ (destroyFrom p.tubes.length visited head p).1, ∀ n, Leads p.tubes v n →
        n ∈ (destroyFrom p.tubes.length visited head p).1 := by
      intro v hv n hn
      rw [hfirst.mem] at hv ⊢
      rcases hv with hv | hv
      · exact .inl (hended v hv n hn)
      · exact .inr (hv.tail hn)
    rw [List.foldl_cons]
    dsimp only
    generalize destroyFrom p.tubes.length visited head p = r at hfirst hended'
    have hrest := ih (p := r.2) (by rwa [hfirst.tubes]) (by rwa [hfirst.tubes]) (by rwa [hfirst.tubes])
      hfirst.nodup (by rwa [hfirst.tubes])
    have hboth := hfirst.trans hrest
    simp only [hfirst.tubes] at hboth
    simpa only [List.mem_cons, exists_eq_or_imp] using hboth

/-- Destroying chains records every tube on their walks once. -/
theorem exists_destroyChains (htells : ∀ t ∈ p.tubes, t.stage.Tells record)
    (hplaced : Placed p.tubes) {heads : List TubeId} (hheads : ∀ head ∈ heads, head < p.tubes.length) :
    (p.destroyChains heads).tubes = p.tubes ∧ ∃ visits : List TubeId,
      record (p.destroyChains heads).store = record p.store ++ visits ∧ visits.Nodup ∧
      ∀ k, k ∈ visits ↔ ∃ head ∈ heads, OnWalk p.tubes head k := by
  obtain ⟨htubes, ⟨fresh, hfresh, hrecord⟩, hnodup, hmem⟩ :=
    visits_foldl htells hplaced hheads List.nodup_nil nofun
  rw [List.append_nil] at hfresh
  refine ⟨htubes, fresh.reverse, hrecord, ?_, fun k => ?_⟩
  · rw [List.nodup_reverse, ← hfresh]
    exact hnodup
  · rw [List.mem_reverse, ← hfresh, hmem]
    simp

end Plant

end SoapNode
