import SoapNode.Assembly
import SoapNode.Proofs.Tube.Chains

/-!
# Chains as they are assembled

A chain that is built from layers has their stages, the outermost first, and then the last one.
-/

namespace SoapNode

variable {World : Type}

namespace Layer

def stages (kind : BindingKind) : Layer World → List (SiteStage World)
  | .stage s => [s]
  | .handlers side =>
    match kind with
    | .xmlHttp => [HandlerStage.stage ⟨.logical, side, false⟩]
    | _ => [HandlerStage.stage ⟨HandlerStage.outerKind side, side, true⟩,
      HandlerStage.stage ⟨HandlerStage.cousin (HandlerStage.outerKind side), side, true⟩]

theorem add_linked {p : SitePlant World} {next : TubeId} {behind : List (SiteStage World)}
    (h : Linked p.tubes next behind) (st : SiteStage World) (cells : List CellId) :
    Linked (p.add ⟨st, [next], cells⟩).2.tubes (p.add ⟨st, [next], cells⟩).1 (st :: behind) ∧
      Plant.Grows [st] p (p.add ⟨st, [next], cells⟩).2 := by
  refine ⟨.of_add (t := ⟨st, [next], cells⟩) rfl h, List.prefix_append _ _, ?_, rfl, 0,
    (List.append_nil _).symm⟩
  intro t ht
  rcases List.mem_append.mp ht with ht | ht
  · exact .inl ht
  · rw [List.mem_singleton.mp ht]
    exact .inr List.mem_cons_self

theorem grows_newCell (p : SitePlant World) :
    Plant.Grows ([] : List (SiteStage World)) p { p with store := (p.store.newCell .fresh).2 } :=
  ⟨List.prefix_rfl, fun _ ht => .inl ht, rfl, 1, rfl⟩

theorem add_pair_linked {p : SitePlant World} {next : TubeId} {behind : List (SiteStage World)}
    (h : Linked p.tubes next behind) (outer inner : SiteStage World) (cells : List CellId) :
    let r := (p.add ⟨inner, [next], cells⟩).2.add ⟨outer, [(p.add ⟨inner, [next], cells⟩).1], cells⟩
    Linked r.2.tubes r.1 (outer :: inner :: behind) ∧ Plant.Grows [outer, inner] p r.2 := by
  obtain ⟨hinner, hgrows⟩ := add_linked h inner cells
  obtain ⟨houter, hgrows'⟩ := add_linked hinner outer cells
  exact ⟨houter, (hgrows.mono (by simp)).trans (hgrows'.mono (by simp))⟩

theorem put_linked (kind : BindingKind) (l : Layer World) {p : SitePlant World} {next : TubeId}
    {behind : List (SiteStage World)} (h : Linked p.tubes next behind) :
    Linked (l.put kind next p).2.tubes (l.put kind next p).1 (l.stages kind ++ behind) ∧
      Plant.Grows (l.stages kind) p (l.put kind next p).2 := by
  cases l with
  | stage s => exact add_linked h s []
  | handlers side =>
    have hcell := grows_newCell p
    have hpair := add_pair_linked (p := { p with store := (p.store.newCell .fresh).2 }) h
      (HandlerStage.stage ⟨HandlerStage.outerKind side, side, true⟩)
      (HandlerStage.stage ⟨HandlerStage.cousin (HandlerStage.outerKind side), side, true⟩) [p.store.cells.length]
    cases kind with
    | xmlHttp =>
      obtain ⟨hlinked, hgrows⟩ := add_linked (p := { p with store := (p.store.newCell .fresh).2 }) h
        (HandlerStage.stage ⟨.logical, side, false⟩) [p.store.cells.length]
      exact ⟨hlinked, (hcell.mono nofun).trans hgrows⟩
    | soap11 => exact ⟨hpair.1, (hcell.mono nofun).trans hpair.2⟩
    | soap12 => exact ⟨hpair.1, (hcell.mono nofun).trans hpair.2⟩

theorem build_linked (kind : BindingKind) (layers : List (Layer World)) (last : SiteStage World) (p : SitePlant World) :
    Linked (build kind layers last p).2.tubes (build kind layers last p).1 (layers.flatMap (stages kind) ++ [last]) ∧
      Plant.Grows (layers.flatMap (stages kind) ++ [last]) p (build kind layers last p).2 := by
  induction layers with
  | nil =>
    refine ⟨.of_add_last (t := ⟨last, [], []⟩) rfl, List.prefix_append _ _, ?_, rfl, 0,
      (List.append_nil _).symm⟩
    intro t ht
    rcases List.mem_append.mp ht with ht | ht
    · exact .inl ht
    · rw [List.mem_singleton.mp ht]
      exact .inr List.mem_cons_self
  | cons l layers ih =>
    obtain ⟨hlinked, hgrows⟩ := ih
    obtain ⟨hlinked', hgrows'⟩ := put_linked kind l hlinked
    rw [List.flatMap_cons, List.append_assoc]
    exact ⟨hlinked', (hgrows.mono (List.subset_append_right _ _)).trans
      (hgrows'.mono (List.subset_append_left _ _))⟩

end Layer

end SoapNode
