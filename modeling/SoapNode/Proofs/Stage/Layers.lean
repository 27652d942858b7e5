import SoapNode.Proofs.Stage.Uniform
import SoapNode.Proofs.Tube.Templates

/-!
# Layers make templates

A chain that is built from uniform layers in front of a uniform last stage is a template.
-/

namespace SoapNode

open HandlerStage (outerKind cousin)

variable {World : Type}

/-- A stage without cells that can stand in a template. -/
structure Stage.Plain (L : Likeness (HandlerExchange World) (Site World)) (st : SiteStage World) : Prop where
  uniform : st.Uniform L 0 true
  copied : ∀ w s, st.copied w s = s

inductive Layer.Plain (L : Likeness (HandlerExchange World) (Site World)) : Layer World → Prop where
  | stage {st} (plain : st.Plain L) (own : st.shareable = false) : Plain L (.stage st)
  | handlers (side : Side) : Plain L (.handlers side)

namespace Layer

theorem build_modifyWorld (kind : BindingKind) (layers : List (Layer World)) (last : SiteStage World)
    (p : SitePlant World) (f : Site World → Site World) :
    build kind layers last (p.modifyWorld f) =
      ((build kind layers last p).1, (build kind layers last p).2.modifyWorld f) := by
  induction layers with
  | nil => rfl
  | cons l layers ih =>
    show l.put kind (build kind layers last (p.modifyWorld f)).1 (build kind layers last (p.modifyWorld f)).2 = _
    rw [ih]
    cases l with
    | stage s => rfl
    | handlers side => cases kind <;> rfl

variable {b : Binding World} {clock : Instant} {ids : Bool} {R : World → World → Prop}
  (hb : ∀ g ∈ b.handlerConfig.chain, g.Respects R)

theorem template_add {L : Likeness (HandlerExchange World) (Site World)} {p : SitePlant World} {next : TubeId}
    (h : Template L p next) {t : Tube (HandlerExchange World) (Site World)} (own : t.stage.shareable = false)
    (successors : t.successors = [next]) (uniform : t.stage.Uniform L t.cells.length true)
    (copied : ∀ w s, t.stage.copied w s = s) (roomy : ∀ c ∈ t.cells, c < p.store.cells.length) :
    Template L (p.add t).2 (p.add t).1 := by
  obtain ⟨t', ht'⟩ : ∃ t', p.tubes[next]? = some t' := ⟨_, List.getElem?_eq_getElem h.orderly.lt_length⟩
  exact ⟨h.orderly.add own successors uniform.weaken copied roomy ht' (.inl (h.starts t' ht')),
    Template.starts_concat uniform⟩

theorem template_newCell {L : Likeness (HandlerExchange World) (Site World)} {p : SitePlant World} {next : TubeId}
    (h : Template L p next) : Template L { p with store := (p.store.newCell .fresh).2 } next :=
  h.mono ⟨List.prefix_rfl, by
    show p.store.cells.length ≤ (p.store.cells ++ [_]).length
    rw [List.length_append]
    exact Nat.le_add_right _ _⟩

include hb

theorem template_putHandlers (kind : BindingKind) (side : Side) {p : SitePlant World} {next : TubeId}
    (h : Template (Site.likeness b clock ids R) p next) :
    Template (Site.likeness b clock ids R) (putHandlers kind side next p).2 (putHandlers kind side next p).1 := by
  have hcell := template_newCell h
  have hroomy : ∀ c ∈ [p.store.cells.length], c <
      (p.store.newCell (.fresh : HandlerExchange World)).2.cells.length := by
    rw [List.forall_mem_singleton]
    show p.store.cells.length < (p.store.cells ++ [_]).length
    rw [List.length_append]
    exact Nat.lt_succ_self _
  -- The inner stage does not start, and shares its cell with the outer one in front of it.
  have hpair (kind : BindingKind) (hkind : kind ≠ .xmlHttp) :
      Template (Site.likeness b clock ids R) (putHandlers kind side next p).2 (putHandlers kind side next p).1 := by
    obtain ⟨t', ht'⟩ : ∃ t', p.tubes[next]? = some t' := ⟨_, List.getElem?_eq_getElem h.orderly.lt_length⟩
    have hinner := hcell.orderly.add
      (t := ⟨HandlerStage.stage ⟨cousin (outerKind side), side, true⟩, [next], [p.store.cells.length]⟩)
      rfl rfl (HandlerStage.uniform hb nofun) (fun _ _ => rfl) hroomy ht' (.inl (h.starts t' ht'))
    have houter : (HandlerStage.stage ⟨outerKind side, side, true⟩).Uniform (Site.likeness b clock ids R) 1 true :=
      HandlerStage.uniform hb (fun _ => by cases side <;> rfl)
    have hboth := hinner.add
      (t := ⟨HandlerStage.stage ⟨outerKind side, side, true⟩, [p.tubes.length], [p.store.cells.length]⟩)
      rfl rfl houter.weaken (fun _ _ => rfl) hroomy List.getElem?_concat_length (.inr (List.Subset.refl _))
    cases kind with
    | xmlHttp => exact absurd rfl hkind
    | soap11 => exact ⟨hboth, Template.starts_concat houter⟩
    | soap12 => exact ⟨hboth, Template.starts_concat houter⟩
  cases kind with
  | xmlHttp =>
    have hsingle : (HandlerStage.stage ⟨.logical, side, false⟩).Uniform (Site.likeness b clock ids R) 1 true :=
      HandlerStage.uniform hb (fun _ => rfl)
    exact template_add (t := ⟨HandlerStage.stage ⟨.logical, side, false⟩, [next], [p.store.cells.length]⟩)
      hcell rfl rfl hsingle (fun _ _ => rfl) hroomy
  | soap11 => exact hpair .soap11 nofun
  | soap12 => exact hpair .soap12 nofun

theorem template_build (kind : BindingKind) {layers : List (Layer World)}
    (hlayers : ∀ l ∈ layers, l.Plain (Site.likeness b clock ids R)) {last : SiteStage World}
    (hlast : last.Plain (Site.likeness b clock ids R)) (p : SitePlant World) :
    Template (Site.likeness b clock ids R) (build kind layers last p).2 (build kind layers last p).1 := by
  induction layers with
  | nil =>
    exact ⟨.last List.getElem?_concat_length rfl rfl hlast.uniform hlast.copied,
      Template.starts_concat (t := ⟨last, [], []⟩) hlast.uniform⟩
  | cons l layers ih =>
    obtain ⟨hl, hlayers⟩ := List.forall_mem_cons.mp hlayers
    have hbehind := ih hlayers
    cases hl with
    | @stage st plain own =>
      exact template_add (t := ⟨st, [_], []⟩) hbehind own rfl plain.uniform plain.copied nofun
    | handlers side => exact template_putHandlers hb kind side hbehind

end Layer

end SoapNode
