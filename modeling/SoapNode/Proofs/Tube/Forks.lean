import SoapNode.Proofs.Tube.Walks

/-!
# The walk of a fork

How a chain is copied depends on how its tubes stand to each other, and on nothing that they do. So the walk
of a fork can be read off a plant of tubes that do nothing: it goes through new tubes, up to the first
shareable one, and from there on it is the walk of the template.
-/

namespace SoapNode

variable {Cell World Cell' World' : Type}

/-- A change of tubes that leaves how they stand to each other. -/
structure Tube.KeepsPlace (f : Tube Cell World → Tube Cell' World') : Prop where
  successors : ∀ t, (f t).successors = t.successors
  shareable : ∀ t, (f t).stage.shareable = t.stage.shareable
  endsWalk : ∀ t, (f t).stage.endsWalk = t.stage.endsWalk

namespace Tube.KeepsPlace

variable {f : Tube Cell World → Tube Cell' World'} {tubes : List (Tube Cell World)}

theorem exists_iff (h : KeepsPlace f) {id : TubeId} {P : Bool → Option TubeId → List TubeId → Prop} :
    (∃ t, (tubes.map f)[id]? = some t ∧ P t.stage.shareable t.next? t.successors) ↔
      ∃ t, tubes[id]? = some t ∧ P t.stage.shareable t.next? t.successors := by
  have hnext : ∀ t, (f t).next? = t.next? := fun t => by rw [Tube.next?, h.endsWalk, h.successors, Tube.next?]
  constructor
  · rintro ⟨t', ht', hp⟩
    rw [List.getElem?_map] at ht'
    obtain ⟨t, ht, rfl⟩ := Option.map_eq_some_iff.mp ht'
    rw [h.shareable, hnext, h.successors] at hp
    exact ⟨t, ht, hp⟩
  · rintro ⟨t, ht, hp⟩
    refine ⟨f t, by rw [List.getElem?_map, ht, Option.map_some], ?_⟩
    rwa [h.shareable, hnext, h.successors]

theorem leads_map (h : KeepsPlace f) : Leads (tubes.map f) = Leads tubes := by
  funext id n
  exact propext (h.exists_iff (P := fun _ next? _ => next? = some n))

theorem onWalk_map (h : KeepsPlace f) : OnWalk (tubes.map f) = OnWalk tubes := by
  rw [OnWalk, h.leads_map]
  rfl

theorem shared_map (h : KeepsPlace f) : Shared (tubes.map f) = Shared tubes := by
  funext head id
  have hshareable : ∀ s, (∃ t : Tube Cell' World', (tubes.map f)[s]? = some t ∧ t.stage.shareable = true) ↔
      ∃ t : Tube Cell World, tubes[s]? = some t ∧ t.stage.shareable = true :=
    fun s => h.exists_iff (P := fun shareable _ _ => shareable = true)
  simp only [Shared, h.onWalk_map, hshareable]

theorem placed_map (h : KeepsPlace f) : Placed (tubes.map f) ↔ Placed tubes := by
  rw [Placed, Placed, h.leads_map, List.length_map]

theorem succeeds_map (h : KeepsPlace f) : Succeeds (tubes.map f) = Succeeds tubes := by
  funext id n
  exact propext (h.exists_iff (P := fun shareable _ successors => shareable = false ∧ n ∈ successors))

theorem reaches_map (h : KeepsPlace f) {head id : TubeId} :
    Reaches (tubes.map f) head id ↔ Reaches tubes head id := by
  constructor
  · intro hid
    induction hid with
    | head => exact .head
    | next _ hn ih => exact .next ih (h.succeeds_map ▸ hn)
  · intro hid
    induction hid with
    | head => exact .head
    | next _ hn ih => exact .next ih (h.succeeds_map.symm ▸ hn)

theorem acyclic_map (h : KeepsPlace f) {head : TubeId} (hacyclic : Acyclic tubes head) :
    Acyclic (tubes.map f) head := by
  constructor
  · intro id hid
    rw [List.length_map]
    exact hacyclic.exist (h.reaches_map.mp hid)
  · intro id hid
    rw [h.succeeds_map]
    exact hacyclic.acyclic (h.reaches_map.mp hid)

end Tube.KeepsPlace

/-! ### Stripped plants -/

/-- The tube without anything that it does. -/
def Tube.bare (t : Tube Cell World) : Tube Unit Unit where
  stage := { Stage.passing t.stage.name with shareable := t.stage.shareable, endsWalk := t.stage.endsWalk }
  successors := t.successors
  cells := []

theorem Tube.keepsPlace_bare : KeepsPlace (@Tube.bare Cell World) := ⟨fun _ => rfl, fun _ => rfl, fun _ => rfl⟩

def Plant.bare (p : Plant Cell World) : Plant Unit Unit := ⟨p.tubes.map Tube.bare, ⟨[], ()⟩⟩

namespace Cloner

variable [Inhabited Cell]

/-- A cloner and a plant beside others that copy the same tubes on a stripped plant. -/
structure Beside (c : Cloner) (p : Plant Cell World) (c' : Cloner) (p' : Plant Unit Unit) : Prop where
  mapped : c'.tubes = c.tubes
  tubes : p'.tubes = p.tubes.map Tube.bare

variable {c c' : Cloner} {p : Plant Cell World} {p' : Plant Unit Unit}

theorem tubes_copyCells (ids : List CellId) (c : Cloner) (p : Plant Cell World) :
    (copyEach copyCell ids c p).2.1.tubes = c.tubes ∧ (copyEach copyCell ids c p).2.2.tubes = p.tubes := by
  induction ids generalizing c p with
  | nil => exact ⟨rfl, rfl⟩
  | cons id ids ih =>
    have hone : (copyCell c id p).2.1.tubes = c.tubes ∧ (copyCell c id p).2.2.tubes = p.tubes := by
      rw [copyCell]
      split <;> exact ⟨rfl, rfl⟩
    obtain ⟨hmapped, htubes⟩ := ih (copyCell c id p).2.1 (copyCell c id p).2.2
    rw [copyEach]
    exact ⟨hmapped.trans hone.1, htubes.trans hone.2⟩

omit [Inhabited Cell] in
theorem copyEach_beside {copyOne : Cloner → TubeId → Plant Cell World → TubeId × Cloner × Plant Cell World}
    {copyOne' : Cloner → TubeId → Plant Unit Unit → TubeId × Cloner × Plant Unit Unit}
    (hone : ∀ {c c' p p'} id, Beside c p c' p' → (copyOne' c' id p').1 = (copyOne c id p).1 ∧
      Beside (copyOne c id p).2.1 (copyOne c id p).2.2 (copyOne' c' id p').2.1 (copyOne' c' id p').2.2)
    (ids : List TubeId) (h : Beside c p c' p') :
    (copyEach copyOne' ids c' p').1 = (copyEach copyOne ids c p).1 ∧
      Beside (copyEach copyOne ids c p).2.1 (copyEach copyOne ids c p).2.2
        (copyEach copyOne' ids c' p').2.1 (copyEach copyOne' ids c' p').2.2 := by
  induction ids generalizing c c' p p' with
  | nil => exact ⟨rfl, h⟩
  | cons id ids ih =>
    obtain ⟨hfirst, hbeside⟩ := hone id h
    obtain ⟨hrest, hbeside⟩ := ih hbeside
    constructor
    · show _ :: _ = _ :: _
      rw [hfirst, hrest]
    · exact hbeside

/-- What a tube does is of no account when it is copied. -/
theorem copyTube_beside (depth : Nat) (id : TubeId) (h : Beside c p c' p') :
    (copyTube depth c' id p').1 = (copyTube depth c id p).1 ∧
      Beside (copyTube depth c id p).2.1 (copyTube depth c id p).2.2 (copyTube depth c' id p').2.1
        (copyTube depth c' id p').2.2 := by
  induction depth generalizing c p c' p' id with
  | zero => exact ⟨rfl, h⟩
  | succ depth ih =>
    have htube : p'.tubes[id]? = (p.tubes[id]?).map Tube.bare := by rw [h.tubes, List.getElem?_map]
    rw [copyTube, copyTube, h.mapped, htube]
    cases c.tubes.lookup id with
    | some copy => exact ⟨rfl, h⟩
    | none =>
      cases p.tubes[id]? with
      | none => exact ⟨rfl, h⟩
      | some t =>
        dsimp only [Option.map_some, Tube.bare]
        by_cases hshared : t.stage.shareable = true
        · rw [if_pos hshared, if_pos hshared]
          exact ⟨rfl, rfl, h.tubes⟩
        · rw [if_neg hshared, if_neg hshared]
          obtain ⟨hsuccessors, hbeside⟩ := copyEach_beside ih t.successors h
          generalize copyEach (copyTube depth) t.successors c p = r at hsuccessors hbeside
          generalize copyEach (copyTube depth) t.successors c' p' = r' at hsuccessors hbeside
          obtain ⟨successors, c₁, p₁⟩ := r
          obtain ⟨successors', c₁', p₁'⟩ := r'
          obtain rfl : successors' = successors := hsuccessors
          obtain ⟨hmapped, htubes⟩ := tubes_copyCells t.cells c₁ p₁
          dsimp only
          generalize copyEach copyCell t.cells c₁ p₁ = r at hmapped htubes
          obtain ⟨cells, c₂, p₂⟩ := r
          dsimp only at hbeside hmapped htubes
          have hlength : p₁'.tubes.length = p₂.tubes.length := by rw [hbeside.tubes, htubes, List.length_map]
          refine ⟨hlength, ?_, ?_⟩
          · show (id, p₁'.tubes.length) :: c₁'.tubes = (id, p₂.tubes.length) :: c₂.tubes
            rw [hlength, hbeside.mapped, hmapped]
          · show p₁'.tubes ++ [_] = (p₂.tubes ++ [_]).map Tube.bare
            rw [hbeside.tubes, htubes, List.map_append]
            rfl

omit [Inhabited Cell] in
theorem copyEach_keeps {ι : Type} {I : Plant Cell World → Prop}
    (copyOne : Cloner → ι → Plant Cell World → ι × Cloner × Plant Cell World)
    (hone : ∀ c i p, I p → I (copyOne c i p).2.2) (is : List ι) (c : Cloner) (h : I p) :
    I (copyEach copyOne is c p).2.2 := by
  induction is generalizing c p with
  | nil => exact h
  | cons i is ih => exact ih _ (hone c i p h)

/-- Copying keeps what neither new cells break nor new tubes with stages that are there. -/
theorem copyTube_keeps {I : Plant Cell World → Prop} {Q : Stage Cell World → Prop}
    (hstages : ∀ p, I p → ∀ t ∈ p.tubes, Q t.stage)
    (hcell : ∀ p c, I p → I { p with store := (p.store.newCell c).2 })
    (hadd : ∀ p st successors cells w, I p → Q st →
      I ⟨p.tubes ++ [⟨st, successors, cells⟩], st.copied w p.store⟩)
    (depth : Nat) (c : Cloner) (id : TubeId) (h : I p) : I (copyTube depth c id p).2.2 := by
  induction depth generalizing c id p with
  | zero => exact h
  | succ depth ih =>
    rw [copyTube]
    split
    · exact h
    · exact h
    · rename_i t _ ht
      split
      · exact h
      · have hfirst := copyEach_keeps (copyTube depth) (fun c i p hp => ih c i hp) t.successors c h
        have hsecond := copyEach_keeps copyCell (fun c i p hp => by
          rw [copyCell]
          split
          · exact hp
          · exact hcell p default hp) t.cells (copyEach (copyTube depth) t.successors c p).2.1 hfirst
        exact hadd _ _ _ _ _ hsecond (hstages p h t (List.mem_of_getElem? ht))

end Cloner

/-! ### The walk of a copy -/

/-- A chain and a fork of it, as far as walks go. -/
structure Forked (tubes tubes' : List (Tube Cell World)) (head head' : TubeId) : Prop where
  grown : tubes <+: tubes'
  placed : Placed tubes'
  head_lt : head' < tubes'.length
  own : ∀ id, OnWalk tubes' head' id → Shared tubes head id ∨ tubes.length ≤ id
  shared : ∀ id, Shared tubes head id → OnWalk tubes' head' id

theorem Acyclic.exists_tube {tubes : List (Tube Cell World)} {head id : TubeId} (h : Acyclic tubes head)
    (hid : Reaches tubes head id) :
    ∃ t, tubes[id]? = some t :=
  ⟨_, List.getElem?_eq_getElem (h.exist hid)⟩

theorem Acyclic.mono {tubes tubes' : List (Tube Cell World)} {head : TubeId} (h : Acyclic tubes head)
    (htubes : tubes <+: tubes') : Acyclic tubes' head := by
  have hsucceeds : ∀ {id n}, Reaches tubes head id → Succeeds tubes' id n → Succeeds tubes id n := by
    rintro id n hid ⟨t, ht, hown, hn⟩
    refine ⟨t, ?_, hown, hn⟩
    rw [← ht, List.getElem?_eq_getElem (h.exist hid)]
    exact (getElem?_mono htubes (List.getElem?_eq_getElem (h.exist hid))).symm
  have hreaches : ∀ {id}, Reaches tubes' head id → Reaches tubes head id := by
    intro id hid
    induction hid with
    | head => exact .head
    | next _ hn ih => exact .next ih (hsucceeds ih hn)
  refine ⟨fun hid => Nat.lt_of_lt_of_le (h.exist (hreaches hid)) htubes.length_le,
    fun {id} hid hself => h.acyclic (hreaches hid) ?_⟩
  have hbehind : ∀ {n}, Relation.TransGen (Succeeds tubes') id n →
      Relation.TransGen (Succeeds tubes) id n ∧ Reaches tubes head n := by
    intro n hn
    induction hn with
    | single hn =>
      have hn := hsucceeds (hreaches hid) hn
      exact ⟨.single hn, .next (hreaches hid) hn⟩
    | tail _ hn ih =>
      have hn := hsucceeds ih.2 hn
      exact ⟨ih.1.tail hn, .next ih.2 hn⟩
  exact (hbehind hself).1

namespace Plant.Copied

variable [Inhabited Cell] {p p' : Plant Cell World} {head head' id n : TubeId} {ρ : Renaming}

theorem leads_rename (h : p.Copied p' head head' ρ) (hid : Reaches p.tubes head id)
    {t : Tube Cell World} (ht : p.tubes[id]? = some t) (hown : t.stage.shareable = false) :
    Leads p'.tubes (ρ.tube id) n ↔ ∃ n₀, Leads p.tubes id n₀ ∧
      Reaches p.tubes head n₀ ∧ ρ.tube n₀ = n := by
  have hcopy := (h.copy id t ⟨hid, ht, hown⟩).2
  have hnext : (t.rename ρ).next? = t.next?.map ρ.tube := by
    rw [Tube.next?, Tube.next?, Tube.rename, List.head?_map]
    split <;> rfl
  rw [leads_iff hcopy, hnext, Option.map_eq_some_iff]
  constructor
  · rintro ⟨n₀, hn₀, rfl⟩
    exact ⟨n₀, (leads_iff ht).mpr hn₀, .next hid ⟨t, ht, hown, mem_successors_of_next? hn₀⟩, rfl⟩
  · rintro ⟨n₀, hn₀, -, rfl⟩
    exact ⟨n₀, (leads_iff ht).mp hn₀, rfl⟩

theorem leads_old (h : p.Copied p' head head' ρ) (hid : id < p.tubes.length) :
    Leads p'.tubes id n ↔ Leads p.tubes id n := by
  refine ⟨?_, Leads.mono h.tubes⟩
  rintro ⟨t, ht, hn⟩
  refine ⟨t, ?_, hn⟩
  rw [← ht, List.getElem?_eq_getElem hid]
  exact (getElem?_mono h.tubes (List.getElem?_eq_getElem hid)).symm

theorem rename_lt (h : p.Copied p' head head' ρ) (hacyclic : Acyclic p.tubes head) (hid : Reaches p.tubes head id) :
    ρ.tube id < p'.tubes.length := by
  obtain ⟨t, ht⟩ := hacyclic.exists_tube hid
  cases hshared : t.stage.shareable with
  | true =>
    rw [h.shareable id _ hid ht hshared]
    exact Nat.lt_of_lt_of_le (hacyclic.exist hid) h.tubes.length_le
  | false => exact (List.getElem?_eq_some_iff.mp (h.copy id _ ⟨hid, ht, hshared⟩).2).1

/-- A tube on the walk of a copy is the copy of one on the walk of the chain, or shared with it. -/
theorem onWalk_cases (h : p.Copied p' head head' ρ) (hacyclic : Acyclic p.tubes head) (hplaced : Placed p.tubes)
    (hid : OnWalk p'.tubes head' id) :
    (∃ id₀, Reaches p.tubes head id₀ ∧ OnWalk p.tubes head id₀ ∧ ρ.tube id₀ = id) ∨
      Shared p.tubes head id := by
  have hhead := hacyclic.exist .head
  induction hid with
  | refl => exact .inl ⟨head, .head, .refl, h.head_eq.symm⟩
  | @tail id n hwalk hn ih =>
    have hshared : Shared p.tubes head id → Shared p.tubes head n := by
      intro hid
      exact hid.tail ((h.leads_old (hid.onWalk.lt_length hplaced hhead)).mp hn)
    rcases ih with ⟨id₀, hreached, hwalk₀, rfl⟩ | hid
    · obtain ⟨t, ht⟩ := hacyclic.exists_tube hreached
      cases hshareable : t.stage.shareable with
      | true =>
        rw [h.shareable id₀ _ hreached ht hshareable] at hshared
        exact .inr (hshared (shared_of_shareable hwalk₀ ht hshareable))
      | false =>
        obtain ⟨n₀, hn₀, hreached₀, rfl⟩ := (h.leads_rename hreached ht hshareable).mp hn
        exact .inl ⟨n₀, hreached₀, hwalk₀.tail hn₀, rfl⟩
    · exact .inr (hshared hid)

/-- The walk of a copy has the copy of each tube that the chain reaches by itself, and what comes behind
a shareable one. -/
theorem onWalk_of_onWalk (h : p.Copied p' head head' ρ) (hacyclic : Acyclic p.tubes head)
    (hid : OnWalk p.tubes head id) :
    (Reaches p.tubes head id ∧ OnWalk p'.tubes head' (ρ.tube id)) ∨ OnWalk p'.tubes head' id := by
  induction hid with
  | refl => exact .inl ⟨.head, h.head_eq ▸ .refl⟩
  | @tail id n hwalk hn ih =>
    rcases ih with ⟨hreached, hcopy⟩ | hid
    · obtain ⟨t, ht⟩ := hacyclic.exists_tube hreached
      cases hshareable : t.stage.shareable with
      | true =>
        rw [h.shareable id _ hreached ht hshareable] at hcopy
        exact .inr (hcopy.tail (hn.mono h.tubes))
      | false =>
        refine .inl ⟨.next hreached ⟨_, ht, hshareable, mem_successors_of_next? ((leads_iff ht).mp hn)⟩,
          hcopy.tail ?_⟩
        exact (h.leads_rename hreached ht hshareable).mpr
          ⟨n, hn, .next hreached ⟨_, ht, hshareable, mem_successors_of_next? ((leads_iff ht).mp hn)⟩, rfl⟩
    · exact .inr (hid.tail (hn.mono h.tubes))

theorem forked (h : p.Copied p' head head' ρ) (hacyclic : Acyclic p.tubes head) (hplaced : Placed p.tubes) :
    Forked p.tubes p'.tubes head head' where
  grown := h.tubes
  placed := by
    intro id n hn
    rcases Nat.lt_or_ge id p.tubes.length with hid | hid
    · exact Nat.lt_of_lt_of_le (hplaced id n ((h.leads_old hid).mp hn)) h.tubes.length_le
    · obtain ⟨t', ht', hnext⟩ := hn
      obtain ⟨id₀, ⟨⟨t, howns⟩, rfl⟩, -⟩ := h.once id hid (List.getElem?_eq_some_iff.mp ht').1
      obtain ⟨n₀, -, hreached, rfl⟩ := (h.leads_rename howns.reached howns.tube howns.own).mp ⟨t', ht', hnext⟩
      exact h.rename_lt hacyclic hreached
  head_lt := by
    rw [h.head_eq]
    exact h.rename_lt hacyclic .head
  own := by
    intro id hid
    rcases h.onWalk_cases hacyclic hplaced hid with ⟨id₀, hreached, hwalk, rfl⟩ | hid
    · obtain ⟨t, ht⟩ := hacyclic.exists_tube hreached
      cases hshareable : t.stage.shareable with
      | true =>
        rw [h.shareable id₀ _ hreached ht hshareable]
        exact .inl (shared_of_shareable hwalk ht hshareable)
      | false => exact .inr (h.copy id₀ _ ⟨hreached, ht, hshareable⟩).1
    · exact .inl hid
  shared := by
    rintro id ⟨s, hs, ⟨t, ht, hshareable⟩, hid⟩
    have hwalk : OnWalk p'.tubes head' s := by
      rcases h.onWalk_of_onWalk hacyclic hs with ⟨hreached, hcopy⟩ | hwalk
      · rwa [h.shareable s t hreached ht hshareable] at hcopy
      · exact hwalk
    exact hwalk.trans (hid.mono h.tubes)

end Plant.Copied

namespace Plant

variable [Inhabited Cell] {p : Plant Cell World} {head : TubeId}

theorem prefix_copyChain (p : Plant Cell World) (head : TubeId) : p.tubes <+: (p.copyChain head).2.tubes :=
  Cloner.copyTube_keeps (I := fun q => p.tubes <+: q.tubes) (Q := fun _ => True)
    (fun _ _ _ _ => trivial) (fun _ _ h => h)
    (fun _ _ _ _ _ h _ => h.trans (List.prefix_append _ _)) p.tubes.length .empty head List.prefix_rfl

/-- Forking a chain of any plant. -/
theorem forked_copyChain (hacyclic : Acyclic p.tubes head) (hplaced : Placed p.tubes) :
    Forked p.tubes (p.copyChain head).2.tubes head (p.copyChain head).1 := by
  have hplace : Tube.KeepsPlace (@Tube.bare Cell World) := Tube.keepsPlace_bare
  obtain ⟨ρ, hcopied⟩ := Plant.copied_copyChain (p := p.bare) (hplace.acyclic_map hacyclic)
      (fun id t howns w s => by
    obtain ⟨t₀, -, rfl⟩ := List.mem_map.mp (List.mem_of_getElem? howns.tube)
    rfl)
  have hforked := hcopied.forked (hplace.acyclic_map hacyclic) (hplace.placed_map.mpr hplaced)
  have hlength : p.bare.tubes.length = p.tubes.length := List.length_map _
  obtain ⟨hhead, hbeside⟩ :=
    Cloner.copyTube_beside p.tubes.length head (⟨rfl, rfl⟩ : Cloner.Beside .empty p .empty p.bare)
  have hhead' : (p.bare.copyChain head).1 = (p.copyChain head).1 := by
    rw [copyChain, Cloner.copy, hlength]
    exact hhead
  have htubes : (p.bare.copyChain head).2.tubes = (p.copyChain head).2.tubes.map Tube.bare := by
    rw [copyChain, Cloner.copy, hlength]
    exact hbeside.tubes
  rw [hhead', htubes] at hforked
  have hown := hforked.own
  have hshared := hforked.shared
  rw [Plant.bare, hplace.onWalk_map, hplace.shared_map, List.length_map] at hown
  rw [Plant.bare, hplace.onWalk_map, hplace.shared_map] at hshared
  exact {
    grown := prefix_copyChain p head
    placed := hplace.placed_map.mp hforked.placed
    head_lt := by simpa using hforked.head_lt
    own := hown
    shared := hshared }

end Plant

end SoapNode
