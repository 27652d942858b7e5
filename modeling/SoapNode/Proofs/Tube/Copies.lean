import Mathlib.Data.Finset.Card
import Mathlib.Data.List.Forall2
import Mathlib.Logic.ExistsUnique
import Mathlib.Logic.Relation
import SoapNode.Proofs.Tube.Chains

/-!
# Copies of a graph of tubes

A template may be any graph of tubes without cycles. Its copy is the template under a renaming: shareable
tubes keep their identities, all other tubes and all cells that they hold get fresh ones, each once. The
cloner keeps the part of the renaming that is made so far, and what it maps it never maps again.
-/

namespace SoapNode

variable {Cell World : Type}

/-- New identities for tubes and for cells. -/
structure Renaming where
  tube : TubeId → TubeId
  cell : CellId → CellId

def Tube.rename (ρ : Renaming) (t : Tube Cell World) : Tube Cell World :=
  ⟨t.stage, t.successors.map ρ.tube, t.cells.map ρ.cell⟩

/-- One tube comes behind another that each copy of a chain has for itself. -/
def Succeeds (tubes : List (Tube Cell World)) (id n : TubeId) : Prop :=
  ∃ t, tubes[id]? = some t ∧ t.stage.shareable = false ∧ n ∈ t.successors

/-- The tubes of a chain from its head on, as far as tubes are not shared by copies. -/
inductive Reaches (tubes : List (Tube Cell World)) (head : TubeId) : TubeId → Prop where
  | head : Reaches tubes head head
  | next {id n} (reached : Reaches tubes head id) (successor : Succeeds tubes id n) : Reaches tubes head n

/-- A tube of a chain that each copy of the chain has for itself. -/
structure Owns (tubes : List (Tube Cell World)) (head id : TubeId) (t : Tube Cell World) : Prop where
  reached : Reaches tubes head id
  tube : tubes[id]? = some t
  own : t.stage.shareable = false

/-- A chain whose tubes exist, where no tube is behind itself. -/
structure Acyclic (tubes : List (Tube Cell World)) (head : TubeId) : Prop where
  exist : ∀ {id}, Reaches tubes head id → id < tubes.length
  acyclic : ∀ {id}, Reaches tubes head id → ¬ Relation.TransGen (Succeeds tubes) id id

/-- A chain that was built from its tail is acyclic. -/
theorem Acyclic.of_earlier {tubes : List (Tube Cell World)} {head : TubeId} (hhead : head < tubes.length)
    (hearlier : ∀ id, Reaches tubes head id → ∀ n, Succeeds tubes id n → n < id) : Acyclic tubes head := by
  have hexist : ∀ {id}, Reaches tubes head id → id < tubes.length := by
    intro id hid
    induction hid with
    | head => exact hhead
    | next reached successor ih => exact Nat.lt_trans (hearlier _ reached _ successor) ih
  have hbehind : ∀ {id n}, Relation.TransGen (Succeeds tubes) id n → Reaches tubes head id → n < id := by
    intro id n hn
    induction hn using Relation.TransGen.head_induction_on with
    | single hn => exact fun hid => hearlier _ hid _ hn
    | head hfirst _ ih => exact fun hid => Nat.lt_trans (ih (.next hid hfirst)) (hearlier _ hid _ hfirst)
  exact ⟨hexist, fun hid hself => Nat.lt_irrefl _ (hbehind hself hid)⟩

open Classical in
/-- The number of the tubes behind a tube falls from a tube to its successors. -/
theorem Acyclic.exists_rank {tubes : List (Tube Cell World)} {head : TubeId} (h : Acyclic tubes head) :
    ∃ rank : TubeId → Nat, ∀ id, Reaches tubes head id →
      rank id < tubes.length ∧ ∀ n, Succeeds tubes id n → rank n < rank id := by
  let behind (id : TubeId) : Finset TubeId :=
    {n ∈ Finset.range tubes.length | Relation.TransGen (Succeeds tubes) id n}
  refine ⟨fun id => (behind id).card, fun id hid => ⟨?_, fun n hn => Finset.card_lt_card ?_⟩⟩
  · calc (behind id).card
      _ < (Finset.range tubes.length).card :=
        Finset.card_lt_card ((Finset.ssubset_iff_of_subset (Finset.filter_subset _ _)).mpr
          ⟨id, Finset.mem_range.mpr (h.exist hid), fun hself => h.acyclic hid (Finset.mem_filter.mp hself).2⟩)
      _ = tubes.length := Finset.card_range _
  · refine (Finset.ssubset_iff_of_subset ?_).mpr ⟨n, ?_, ?_⟩
    · intro m hm
      obtain ⟨hm, hbehind⟩ := Finset.mem_filter.mp hm
      exact Finset.mem_filter.mpr ⟨hm, .head hn hbehind⟩
    · exact Finset.mem_filter.mpr ⟨Finset.mem_range.mpr (h.exist (.next hid hn)), .single hn⟩
    · intro hself
      exact h.acyclic (.next hid hn) (Finset.mem_filter.mp hself).2

/-- A chain and its copy, made on a plant with this renaming. -/
structure Plant.Copied [Inhabited Cell] (p p' : Plant Cell World) (head head' : TubeId) (ρ : Renaming) : Prop where
  head_eq : head' = ρ.tube head
  tubes : p.tubes <+: p'.tubes
  cells : p.store.cells <+: p'.store.cells
  shareable : ∀ id t, Reaches p.tubes head id → p.tubes[id]? = some t →
    t.stage.shareable = true → ρ.tube id = id
  copy : ∀ id t, Owns p.tubes head id t → p.tubes.length ≤ ρ.tube id ∧
    p'.tubes[ρ.tube id]? = some (t.rename ρ)
  /-- Every new tube is the copy of one tube of the chain. -/
  once : ∀ k, p.tubes.length ≤ k → k < p'.tubes.length →
    ∃! id, (∃ t, Owns p.tubes head id t) ∧ ρ.tube id = k
  fresh : ∀ id t, Owns p.tubes head id t → ∀ c ∈ t.cells,
    p.store.cells.length ≤ ρ.cell c ∧ p'.store.cells[ρ.cell c]? = some default
  sharing : ∀ id t id' t', Owns p.tubes head id t → Owns p.tubes head id' t' →
    ∀ c ∈ t.cells, ∀ c' ∈ t'.cells,
    (ρ.cell c = ρ.cell c' ↔ c = c')

namespace Cloner

/-- What is mapped stays mapped. -/
structure Extends (c c' : Cloner) : Prop where
  tubes : ∀ {id k}, c.tubes.lookup id = some k → c'.tubes.lookup id = some k
  cells : ∀ {id k}, c.cells.lookup id = some k → c'.cells.lookup id = some k

namespace Extends

theorem refl (c : Cloner) : Extends c c := ⟨id, id⟩

theorem trans {c c' c'' : Cloner} (h : Extends c c') (h' : Extends c' c'') : Extends c c'' :=
  ⟨fun hid => h'.tubes (h.tubes hid), fun hid => h'.cells (h.cells hid)⟩

end Extends

theorem lookup_cons_cases {id i k k' : Nat} {l : List (Nat × Nat)} (h : ((id, k) :: l).lookup i = some k') :
    i = id ∧ k' = k ∨ l.lookup i = some k' := by
  rw [List.lookup_cons] at h
  split at h
  · rename_i heq
    cases h
    exact .inl ⟨beq_iff_eq.mp heq, rfl⟩
  · exact .inr h

theorem lookup_cons_of_lookup {id i k k' : Nat} {l : List (Nat × Nat)} (hnew : l.lookup id = none)
    (h : l.lookup i = some k) : ((id, k') :: l).lookup i = some k := by
  have hne : i ≠ id := by
    rintro rfl
    rw [hnew] at h
    cases h
  rw [List.lookup_cons, beq_false_of_ne hne, h]

theorem extends_tube {c : Cloner} {id : TubeId} (hnew : c.tubes.lookup id = none) (copy : TubeId) :
    Extends c { c with tubes := (id, copy) :: c.tubes } := ⟨lookup_cons_of_lookup hnew, fun h => h⟩

theorem extends_cell {c : Cloner} {id : CellId} (hnew : c.cells.lookup id = none) (copy : CellId) :
    Extends c { c with cells := (id, copy) :: c.cells } := ⟨fun h => h, lookup_cons_of_lookup hnew⟩

/-- No two identities are mapped to the same one. -/
def OneToOne (l : List (Nat × Nat)) : Prop := ∀ i j k, l.lookup i = some k → l.lookup j = some k → i = j

theorem OneToOne.cons {l : List (Nat × Nat)} (h : OneToOne l) {k : Nat}
    (hk : ∀ i, l.lookup i ≠ some k) (id : Nat) : OneToOne ((id, k) :: l) := by
  intro i j k' hi hj
  rcases lookup_cons_cases hi with ⟨rfl, rfl⟩ | hi'
  · rcases lookup_cons_cases hj with ⟨rfl, -⟩ | hj'
    · rfl
    · exact absurd hj' (hk j)
  · rcases lookup_cons_cases hj with ⟨-, rfl⟩ | hj'
    · exact absurd hi' (hk i)
    · exact h i j k' hi' hj'

/-- The tubes and cells that a cloner has mapped so far, for a chain of the plant `p₀`. -/
structure Sound [Inhabited Cell] (p₀ : Plant Cell World) (head : TubeId) (c : Cloner) (p : Plant Cell World) :
    Prop where
  tubes : p₀.tubes <+: p.tubes
  cells : ∃ n, p.store.cells = p₀.store.cells ++ List.replicate n default
  mapped : ∀ {id k}, c.tubes.lookup id = some k → ∃ t, p₀.tubes[id]? = some t ∧ Reaches p₀.tubes head id ∧
    (t.stage.shareable = true ∧ k = id ∨ t.stage.shareable = false ∧ p₀.tubes.length ≤ k ∧
      ∃ successors cells, p.tubes[k]? = some ⟨t.stage, successors, cells⟩ ∧
        List.Forall₂ (fun n n' => c.tubes.lookup n = some n') t.successors successors ∧
        List.Forall₂ (fun x x' => c.cells.lookup x = some x') t.cells cells)
  oneToOne : OneToOne c.tubes
  covers : ∀ k, p₀.tubes.length ≤ k → k < p.tubes.length → ∃ id, c.tubes.lookup id = some k
  fresh : ∀ {x x'}, c.cells.lookup x = some x' → p₀.store.cells.length ≤ x' ∧ x' < p.store.cells.length
  oneToOneCells : OneToOne c.cells

section Copying

variable [Inhabited Cell] {p₀ p : Plant Cell World} {head : TubeId} {c : Cloner}

theorem Sound.empty (p₀ : Plant Cell World) (head : TubeId) : Sound p₀ head .empty p₀ where
  tubes := List.prefix_rfl
  cells := ⟨0, (List.append_nil _).symm⟩
  mapped := nofun
  oneToOne _ _ _ := nofun
  covers _ hk hk' := absurd hk' (Nat.not_lt.mpr hk)
  fresh := nofun
  oneToOneCells _ _ _ := nofun

/-- What a cloner maps to is there. -/
theorem Sound.lt_length (h : Sound p₀ head c p) {id k : TubeId} (hid : c.tubes.lookup id = some k) :
    k < p.tubes.length := by
  obtain ⟨t, ht, -, ⟨-, rfl⟩ | ⟨-, -, successors, cells, hk, -⟩⟩ := h.mapped hid
  · exact Nat.lt_of_lt_of_le (List.getElem?_eq_some_iff.mp ht).1 h.tubes.length_le
  · exact (List.getElem?_eq_some_iff.mp hk).1

omit [Inhabited Cell] in
/-- Copies made of all members of a list, one after another. -/
theorem copyEach_sound {ι : Type} {copyOne : Cloner → ι → Plant Cell World → ι × Cloner × Plant Cell World}
    {I : Cloner → Plant Cell World → Prop} {L : Cloner → ι → ι → Prop} (is : List ι)
    (hmono : ∀ {c c' i k}, Extends c c' → L c i k → L c' i k)
    (hone : ∀ i ∈ is, ∀ {c p}, I c p → I (copyOne c i p).2.1 (copyOne c i p).2.2 ∧
      Extends c (copyOne c i p).2.1 ∧
      L (copyOne c i p).2.1 i (copyOne c i p).1) (h : I c p) :
    I (copyEach copyOne is c p).2.1 (copyEach copyOne is c p).2.2 ∧ Extends c (copyEach copyOne is c p).2.1 ∧
      List.Forall₂ (L (copyEach copyOne is c p).2.1) is (copyEach copyOne is c p).1 := by
  induction is generalizing c p with
  | nil => exact ⟨h, .refl c, .nil⟩
  | cons i is ih =>
    obtain ⟨hfirst, hextends, hi⟩ := hone i List.mem_cons_self h
    obtain ⟨hrest, hextends', his⟩ := ih (fun j hj => hone j (List.mem_cons_of_mem i hj)) hfirst
    rw [copyEach]
    exact ⟨hrest, hextends.trans hextends', .cons (hmono hextends' hi) his⟩

theorem copyCell_sound (h : Sound p₀ head c p) (id : CellId) :
    (Sound p₀ head (copyCell c id p).2.1 (copyCell c id p).2.2 ∧ (copyCell c id p).2.1.tubes = c.tubes) ∧
      Extends c (copyCell c id p).2.1 ∧ (copyCell c id p).2.1.cells.lookup id = some (copyCell c id p).1 := by
  rw [copyCell]
  split
  · rename_i copy hcopy
    exact ⟨⟨h, rfl⟩, .refl c, hcopy⟩
  · rename_i hnew
    have hextends := extends_cell hnew p.store.cells.length
    obtain ⟨n, hn⟩ := h.cells
    refine ⟨⟨?_, rfl⟩, hextends, List.lookup_cons_self⟩
    constructor
    case tubes => exact h.tubes
    case cells => exact ⟨n + 1, by rw [List.replicate_succ', ← List.append_assoc, ← hn]; rfl⟩
    case mapped =>
      intro i k hi
      obtain ⟨t, ht, hreached, hshared | ⟨hown, hle, successors, cells, hk, hsuccessors, hcells⟩⟩ := h.mapped hi
      · exact ⟨t, ht, hreached, .inl hshared⟩
      · exact ⟨t, ht, hreached, .inr ⟨hown, hle, successors, cells, hk, hsuccessors,
          hcells.imp fun _ _ => hextends.cells⟩⟩
    case oneToOne => exact h.oneToOne
    case covers => exact h.covers
    case fresh =>
      intro x x' hx
      have hlength : (p.store.newCell default).2.cells.length = p.store.cells.length + 1 := List.length_append
      rw [hlength]
      rcases lookup_cons_cases hx with ⟨rfl, rfl⟩ | hx
      · refine ⟨?_, Nat.lt_succ_self _⟩
        show p₀.store.cells.length ≤ p.store.cells.length
        rw [hn, List.length_append]
        exact Nat.le_add_right _ _
      · exact ⟨(h.fresh hx).1, Nat.lt_succ_of_lt (h.fresh hx).2⟩
    case oneToOneCells => exact h.oneToOneCells.cons (fun _ hx => Nat.lt_irrefl _ (h.fresh hx).2) id

/-- A tube is added for a tube of the chain whose successors and cells are mapped. -/
theorem Sound.add (h : Sound p₀ head c p) {id : TubeId} {t : Tube Cell World} (howns : Owns p₀.tubes head id t)
    (hnew : c.tubes.lookup id = none) {successors : List TubeId} {cells : List CellId}
    (hsuccessors : List.Forall₂ (fun n n' => c.tubes.lookup n = some n') t.successors successors)
    (hcells : List.Forall₂ (fun x x' => c.cells.lookup x = some x') t.cells cells) {store : Store Cell World}
    (hstore : store.cells = p.store.cells) :
    Sound p₀ head { c with tubes := (id, p.tubes.length) :: c.tubes }
      { tubes := p.tubes ++ [⟨t.stage, successors, cells⟩], store } := by
  have hextends := extends_tube hnew p.tubes.length
  constructor
  case tubes => exact h.tubes.trans (List.prefix_append _ _)
  case cells => rw [hstore]; exact h.cells
  case mapped =>
    intro i k hi
    rcases lookup_cons_cases hi with ⟨rfl, rfl⟩ | hi
    · refine ⟨t, howns.tube, howns.reached, .inr ⟨howns.own, h.tubes.length_le, successors,
        cells, by simp, ?_, hcells⟩⟩
      exact hsuccessors.imp fun _ _ => hextends.tubes
    · obtain ⟨t', ht', hreached, hshared | ⟨hown, hle, successors', cells', hk, hsuccessors', hcells'⟩⟩ :=
        h.mapped hi
      · exact ⟨t', ht', hreached, .inl hshared⟩
      · refine ⟨t', ht', hreached, .inr ⟨hown, hle, successors', cells', ?_,
          hsuccessors'.imp fun _ _ => hextends.tubes, hcells'⟩⟩
        rw [List.getElem?_append_left (h.lt_length hi), hk]
  case oneToOne => exact h.oneToOne.cons (fun _ hi => Nat.lt_irrefl _ (h.lt_length hi)) id
  case covers =>
    intro k hk hlt
    rw [List.length_append, List.length_singleton] at hlt
    rcases Nat.lt_or_eq_of_le (Nat.le_of_lt_succ hlt) with hlt | rfl
    · obtain ⟨i, hi⟩ := h.covers k hk hlt
      exact ⟨i, hextends.tubes hi⟩
    · exact ⟨id, List.lookup_cons_self⟩
  case fresh => intro x x' hx; rw [hstore]; exact h.fresh hx
  case oneToOneCells => exact h.oneToOneCells

theorem Sound.keep (h : Sound p₀ head c p) {id : TubeId} {t : Tube Cell World} (ht : p₀.tubes[id]? = some t)
    (hreached : Reaches p₀.tubes head id) (hshared : t.stage.shareable = true) (hnew : c.tubes.lookup id = none) :
    Sound p₀ head { c with tubes := (id, id) :: c.tubes } p := by
  have hextends := extends_tube hnew id
  have hid := (List.getElem?_eq_some_iff.mp ht).1
  constructor
  case tubes => exact h.tubes
  case cells => exact h.cells
  case mapped =>
    intro i k hi
    rcases lookup_cons_cases hi with ⟨rfl, rfl⟩ | hi
    · exact ⟨t, ht, hreached, .inl ⟨hshared, rfl⟩⟩
    · obtain ⟨t', ht', hreached', hshared' | ⟨hown, hle, successors, cells, hk, hsuccessors, hcells⟩⟩ :=
        h.mapped hi
      · exact ⟨t', ht', hreached', .inl hshared'⟩
      · exact ⟨t', ht', hreached', .inr ⟨hown, hle, successors, cells, hk,
          hsuccessors.imp fun _ _ => hextends.tubes, hcells⟩⟩
  case oneToOne =>
    refine h.oneToOne.cons (fun i hi => ?_) id
    obtain ⟨t', -, -, ⟨-, rfl⟩ | ⟨-, hle, -⟩⟩ := h.mapped hi
    · rw [hnew] at hi
      cases hi
    · exact Nat.lt_irrefl _ (Nat.lt_of_lt_of_le hid hle)
  case covers =>
    intro k hk hlt
    obtain ⟨i, hi⟩ := h.covers k hk hlt
    exact ⟨i, hextends.tubes hi⟩
  case fresh => exact h.fresh
  case oneToOneCells => exact h.oneToOneCells

variable {rank : TubeId → Nat}

/-- Copying a tube maps it and what is behind it, and nothing that ranks above it. -/
theorem copyTube_sound (hcopied : ∀ id t, Owns p₀.tubes head id t → ∀ w s, (t.stage.copied w s).cells = s.cells)
    (hexist : ∀ {id}, Reaches p₀.tubes head id → id < p₀.tubes.length)
    (hrank : ∀ id n, Reaches p₀.tubes head id → Succeeds p₀.tubes id n → rank n < rank id)
    {depth : Nat} {id : TubeId} (hdepth : rank id < depth) (hreached : Reaches p₀.tubes head id)
    (h : Sound p₀ head c p) :
    (Sound p₀ head (copyTube depth c id p).2.1 (copyTube depth c id p).2.2 ∧
        ∀ i, rank id < rank i → (copyTube depth c id p).2.1.tubes.lookup i = c.tubes.lookup i) ∧
      Extends c (copyTube depth c id p).2.1 ∧
      (copyTube depth c id p).2.1.tubes.lookup id = some (copyTube depth c id p).1 := by
  induction depth generalizing c id p with
  | zero => exact absurd hdepth (Nat.not_lt_zero _)
  | succ depth ih =>
    obtain ⟨t, ht⟩ : ∃ t, p₀.tubes[id]? = some t := ⟨_, List.getElem?_eq_getElem (hexist hreached)⟩
    have hlookup : ∀ {l : List (TubeId × TubeId)} {k i : TubeId}, rank id < rank i →
        ((id, k) :: l).lookup i = l.lookup i := by
      intro l k i hi
      have hne : i ≠ id := by
        rintro rfl
        exact Nat.lt_irrefl _ hi
      rw [List.lookup_cons, beq_false_of_ne hne]
    rw [copyTube, getElem?_mono h.tubes ht]
    cases hnew : c.tubes.lookup id with
    | some copy => exact ⟨⟨h, fun _ _ => rfl⟩, .refl c, hnew⟩
    | none =>
      simp only
      split
      · rename_i hshared
        exact ⟨⟨h.keep ht hreached hshared hnew, fun _ => hlookup⟩, extends_tube hnew id, List.lookup_cons_self⟩
      · rename_i hown
        have howns : Owns p₀.tubes head id t := ⟨hreached, ht, Bool.eq_false_iff.mpr hown⟩
        -- No successor has the tube behind it, so it is still unmapped when they are copied.
        have hone : ∀ n ∈ t.successors, ∀ {c' p'},
            Sound p₀ head c' p' ∧ (∀ i, rank id ≤ rank i → c'.tubes.lookup i = c.tubes.lookup i) →
            (Sound p₀ head (copyTube depth c' n p').2.1 (copyTube depth c' n p').2.2 ∧
                ∀ i, rank id ≤ rank i → (copyTube depth c' n p').2.1.tubes.lookup i = c.tubes.lookup i) ∧
              Extends c' (copyTube depth c' n p').2.1 ∧
              (copyTube depth c' n p').2.1.tubes.lookup n = some (copyTube depth c' n p').1 := by
          rintro n hn c' p' ⟨hsound, hkept⟩
          have hbehind : Succeeds p₀.tubes id n := ⟨t, ht, howns.own, hn⟩
          have hlower := hrank id n hreached hbehind
          obtain ⟨⟨hsound', hkept'⟩, hmapped⟩ := ih (Nat.lt_of_lt_of_le hlower (Nat.le_of_lt_succ hdepth))
            (.next hreached hbehind) hsound
          refine ⟨⟨hsound', fun i hi => ?_⟩, hmapped⟩
          rw [hkept' i (Nat.lt_of_lt_of_le hlower hi), hkept i hi]
        obtain ⟨⟨hsound, hkept⟩, hextends, hsuccessors⟩ := copyEach_sound
          (I := fun c' p' => Sound p₀ head c' p' ∧ ∀ i, rank id ≤ rank i →
            c'.tubes.lookup i = c.tubes.lookup i)
          (L := fun c' n k => c'.tubes.lookup n = some k) t.successors (fun he => he.tubes) hone ⟨h, fun _ _ => rfl⟩
        rcases hfirst : copyEach (copyTube depth) t.successors c p with ⟨successors, c₁, p₁⟩
        rw [hfirst] at hsound hkept hextends hsuccessors
        obtain ⟨⟨hsound', htubes⟩, hextends', hcells⟩ := copyEach_sound
          (I := fun c' p' => Sound p₀ head c' p' ∧ c'.tubes = c₁.tubes)
            (L := fun c' x k => c'.cells.lookup x = some k) t.cells
          (fun he => he.cells) (fun x _ {c' p'} hc' => by
            obtain ⟨⟨hs, ht'⟩, hmapped⟩ := copyCell_sound hc'.1 x
            exact ⟨⟨hs, ht'.trans hc'.2⟩, hmapped⟩) ⟨hsound, rfl⟩
        rcases hsecond : copyEach copyCell t.cells c₁ p₁ with ⟨cells, c₂, p₂⟩
        rw [hsecond] at hsound' htubes hextends' hcells
        have hunmapped : c₂.tubes.lookup id = none := by
          rw [htubes, hkept id (Nat.le_refl _), hnew]
        refine ⟨⟨hsound'.add howns hunmapped (hsuccessors.imp fun _ _ => hextends'.tubes) hcells
          (hcopied id t howns _ _), fun i hi => ?_⟩, (hextends.trans hextends').trans
          (extends_tube hunmapped _), List.lookup_cons_self⟩
        exact (hlookup hi).trans (by rw [htubes, hkept i (Nat.le_of_lt hi)])

/-- The renaming that a cloner has made; the rest keeps its identity. -/
def mapping (c : Cloner) : Renaming where
  tube id := (c.tubes.lookup id).getD id
  cell x := (c.cells.lookup x).getD x

theorem eq_map_of_lookup {l : List (Nat × Nat)} {is ks : List Nat}
    (h : List.Forall₂ (fun i k => l.lookup i = some k) is ks) :
    ks = is.map (fun i => (l.lookup i).getD i) := by
  induction h with
  | nil => rfl
  | cons hi _ ih => rw [List.map_cons, hi, Option.getD_some, ← ih]

theorem exists_lookup {l : List (Nat × Nat)} {is ks : List Nat}
    (h : List.Forall₂ (fun i k => l.lookup i = some k) is ks) :
    ∀ i ∈ is, ∃ k, l.lookup i = some k := by
  induction h with
  | nil => exact nofun
  | cons hi _ ih => exact List.forall_mem_cons.mpr ⟨⟨_, hi⟩, ih⟩

theorem Sound.copy (h : Sound p₀ head c p) {id : TubeId} {t : Tube Cell World}
    (howns : Owns p₀.tubes head id t) {k : TubeId} (hk : c.tubes.lookup id = some k) :
    p₀.tubes.length ≤ k ∧ p.tubes[k]? = some (t.rename c.mapping) ∧
      (∀ n ∈ t.successors, ∃ n', c.tubes.lookup n = some n') ∧
      ∀ x ∈ t.cells, ∃ x', c.cells.lookup x = some x' := by
  obtain ⟨t', ht', -, ⟨hshared, -⟩ | ⟨-, hle, successors, cells, htube, hsuccessors, hcells⟩⟩ := h.mapped hk
  all_goals obtain rfl := Option.some.inj (howns.tube.symm.trans ht')
  · exact absurd hshared (by rw [howns.own]; exact Bool.false_ne_true)
  · refine ⟨hle, ?_, exists_lookup hsuccessors, exists_lookup hcells⟩
    rw [htube, eq_map_of_lookup hsuccessors, eq_map_of_lookup hcells]
    rfl

theorem Sound.exists_lookup (h : Sound p₀ head c p) {head' : TubeId}
    (hhead : c.tubes.lookup head = some head') {id : TubeId} (hreached : Reaches p₀.tubes head id) :
    ∃ k, c.tubes.lookup id = some k := by
  induction hreached with
  | head => exact ⟨head', hhead⟩
  | next reached successor ih =>
    obtain ⟨k, hk⟩ := ih
    obtain ⟨t, tube, own, hn⟩ := successor
    exact (h.copy ⟨reached, tube, own⟩ hk).2.2.1 _ hn

/-- When the head is mapped, the chain is copied. -/
theorem Sound.copied (h : Sound p₀ head c p) {head' : TubeId} (hhead : c.tubes.lookup head = some head') :
    Plant.Copied p₀ p head head' c.mapping := by
  have hrename : ∀ {id k}, c.tubes.lookup id = some k → c.mapping.tube id = k := by
    intro id k hk
    show (c.tubes.lookup id).getD id = k
    rw [hk, Option.getD_some]
  have hcell : ∀ {id t x}, Owns p₀.tubes head id t → x ∈ t.cells →
      c.cells.lookup x = some (c.mapping.cell x) := by
    intro id t x howns hx
    obtain ⟨k, hk⟩ := h.exists_lookup hhead howns.reached
    obtain ⟨x', hx'⟩ := (h.copy howns hk).2.2.2 x hx
    show c.cells.lookup x = some ((c.cells.lookup x).getD x)
    rw [hx', Option.getD_some]
  obtain ⟨n, hn⟩ := h.cells
  constructor
  case head_eq => exact (hrename hhead).symm
  case tubes => exact h.tubes
  case cells => exact ⟨_, hn.symm⟩
  case shareable =>
    intro id t hreached ht hshared
    obtain ⟨k, hk⟩ := h.exists_lookup hhead hreached
    obtain ⟨t', ht', -, ⟨-, rfl⟩ | ⟨hown, -⟩⟩ := h.mapped hk
    · exact hrename hk
    · obtain rfl := Option.some.inj (ht.symm.trans ht')
      exact absurd hshared (by rw [hown]; exact Bool.false_ne_true)
  case copy =>
    intro id t howns
    obtain ⟨k, hk⟩ := h.exists_lookup hhead howns.reached
    obtain ⟨hle, htube, -⟩ := h.copy howns hk
    rw [hrename hk]
    exact ⟨hle, htube⟩
  case once =>
    intro k hk hlt
    obtain ⟨id, hid⟩ := h.covers k hk hlt
    obtain ⟨t, ht, hreached, ⟨-, rfl⟩ | ⟨hown, -⟩⟩ := h.mapped hid
    · exact absurd (List.getElem?_eq_some_iff.mp ht).1 (Nat.not_lt.mpr hk)
    · refine ⟨id, ⟨⟨t, hreached, ht, hown⟩, hrename hid⟩, ?_⟩
      rintro id' ⟨⟨t', howns'⟩, hid'⟩
      obtain ⟨k', hk'⟩ := h.exists_lookup hhead howns'.reached
      obtain rfl : k' = k := (hrename hk').symm.trans hid'
      exact h.oneToOne _ _ _ hk' hid
  case fresh =>
    intro id t howns x hx
    obtain ⟨hle, hlt⟩ := h.fresh (hcell howns hx)
    refine ⟨hle, ?_⟩
    rw [hn, List.length_append, List.length_replicate] at hlt
    rw [hn, List.getElem?_append_right hle, List.getElem?_replicate, if_pos (Nat.sub_lt_left_of_lt_add hle hlt)]
  case sharing =>
    intro id t id' t' howns howns' x hx x' hx'
    refine ⟨fun heq => ?_, congrArg _⟩
    exact h.oneToOneCells _ _ _ (hcell howns hx) (heq ▸ hcell howns' hx')

end Copying

end Cloner

/-- A chain of any acyclic template is copied under a renaming. -/
theorem Plant.copied_copyChain [Inhabited Cell] {p : Plant Cell World} {head : TubeId} (hacyclic : Acyclic p.tubes head)
    (hcopied : ∀ id t, Owns p.tubes head id t → ∀ w s, (t.stage.copied w s).cells = s.cells) :
    ∃ ρ, p.Copied (p.copyChain head).2 head (p.copyChain head).1 ρ := by
  obtain ⟨rank, hrank⟩ := hacyclic.exists_rank
  obtain ⟨⟨hsound, -⟩, -, hlookup⟩ :=
    Cloner.copyTube_sound hcopied hacyclic.exist (fun id n hid => (hrank id hid).2 n)
      (hrank head .head).1 .head (Cloner.Sound.empty p head)
  exact ⟨_, show p.Copied (Cloner.empty.copy head p).2.2 head (Cloner.empty.copy head p).1 _ from
    hsound.copied hlookup⟩

end SoapNode
