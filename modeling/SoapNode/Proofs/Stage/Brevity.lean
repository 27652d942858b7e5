import SoapNode.Proofs.Server
import SoapNode.Proofs.Tube.Passing
import SoapNode.Proofs.Tube.Shadows

/-!
# Stages that are passed once

A stage of a server runs the tubes behind it at most once in an exchange, whatever the handlers and the
operations do. So every exchange through them comes to an end.
-/

namespace SoapNode

section

variable {Cell World : Type}

/-- A stage that runs the tubes behind it at most once: it passes a request on or answers, and it answers
with what comes back. -/
abbrev Stage.Brief (st : Stage Cell World) : Prop :=
  st.Screens (fun _ _ => True) (fun _ _ => True) (fun _ _ => True) (fun _ _ => True)

theorem Stage.brief_of {st : Stage Cell World} (request : ∀ w p s, ∃ m : Move, (st.request w p s).1 = m.action w)
    (response : ∀ w p s, ∃ r, (st.response w p s).1.result? = some r)
    (exception : ∀ w e s, ∃ r, (st.exception w e s).1.result? = some r) : st.Brief where
  request w p s _ := by
    obtain ⟨m, hm⟩ := request w p s
    cases m with
    | pass p' => exact .inl ⟨p', _, Prod.ext hm rfl, trivial⟩
    | ret p' => exact .inr ⟨_, .ok p', _, Prod.ext hm rfl, rfl, trivial⟩
    | throw e => exact .inr ⟨_, .error e, _, Prod.ext hm rfl, rfl, trivial⟩
  result w r s _ := by
    cases r with
    | ok p =>
      obtain ⟨r', hr'⟩ := response w p s
      exact ⟨_, r', _, rfl, hr', trivial⟩
    | error e =>
      obtain ⟨r', hr'⟩ := exception w e s
      exact ⟨_, r', _, rfl, hr', trivial⟩

end

variable {World : Type}

theorem Dump.brief (side : Side) : (Dump.stage side : SiteStage World).Brief :=
  Stage.brief_of (fun _ _ _ => ⟨.pass _, rfl⟩) (fun _ _ _ => ⟨_, rfl⟩) (fun _ _ _ => ⟨_, rfl⟩)

theorem Security.brief (version : Option SoapVersion) (c : SecuritySettings) :
    (Security.stage .server version c : SiteStage World).Brief := by
  refine Stage.brief_of (fun w p s => ?_) (fun _ _ _ => ⟨_, rfl⟩) (fun _ _ _ => ⟨_, rfl⟩)
  show ∃ m : Move, serverRequest version c w p s = m.action w
  unfold serverRequest
  split
  · exact ⟨.pass _, rfl⟩
  · split
    · exact ⟨.throw _, rfl⟩
    · split
      · exact ⟨.ret _, rfl⟩
      · split
        · exact ⟨.pass _, rfl⟩
        · exact ⟨.throw _, rfl⟩

theorem Addressing.brief (v : SoapVersion) (required : Bool) :
    (Addressing.stage .server v required : SiteStage World).Brief := by
  refine Stage.brief_of (fun w p s => ?_) (fun _ _ _ => ⟨_, rfl⟩) (fun _ _ _ => ⟨_, rfl⟩)
  show ∃ m : Move, serverRequest v required w p = m.action w
  unfold serverRequest
  split
  · exact ⟨.pass _, rfl⟩
  · dsimp only
    split
    · exact ⟨.ret _, rfl⟩
    · exact ⟨.pass _, rfl⟩

theorem MustUnderstand.brief (understood : List QName) :
    (MustUnderstand.stage .server understood : SiteStage World).Brief := by
  refine Stage.brief_of (fun w p s => ?_) (fun _ _ _ => ⟨_, rfl⟩) (fun _ _ _ => ⟨_, rfl⟩)
  show ∃ m : Move, (MustUnderstand.request .server understood w p s).1 = m.action w
  unfold MustUnderstand.request
  split
  · split
    · exact ⟨.pass _, rfl⟩
    · exact ⟨.ret _, rfl⟩
  · exact ⟨.pass _, rfl⟩

theorem HandlerStage.brief (h : HandlerStage) : (h.stage : SiteStage World).Brief := by
  refine Stage.brief_of (fun w p s => ?_) (fun w p s => ?_) (fun _ _ _ => ⟨_, rfl⟩)
  · show ∃ m : Move, (h.request w p s).1 = m.action w
    unfold request
    dsimp only
    split
    · exact ⟨.pass _, rfl⟩
    · split
      · exact ⟨.pass _, rfl⟩
      · exact ⟨.ret _, rfl⟩
      · exact ⟨.throw _, rfl⟩
  · show ∃ r, (h.response w p s).1.result? = some r
    unfold response
    dsimp only
    split
    · exact ⟨_, rfl⟩
    · exact ⟨_, rfl⟩

theorem Invoker.line_brief (e : Endpoint World) : Stage.Line [Invoker.stage e] (fun _ _ => True) (fun _ _ => True) :=
  .last fun _ _ _ _ => ⟨_, _, _, rfl, rfl, trivial⟩

theorem Server.line_brief (b : Binding World) (c : AssemblySettings) (e : Endpoint World) :
    Stage.Line (stages b c e) (fun _ _ => True) (fun _ _ => True) := by
  rcases b.kind.bare_or_soap with hkind | ⟨v, hkind⟩
  · rw [stages_bare hkind]
    exact .optional (Dump.brief .server) (.screen (HandlerStage.brief _) (Invoker.line_brief e))
  · rw [stages_soap hkind]
    refine .optional (Dump.brief .server) (.optional (Security.brief _ _) (.optional (Addressing.brief _ _) ?_))
    exact .screen (MustUnderstand.brief _)
      (.screen (HandlerStage.brief _) (.screen (HandlerStage.brief _) (Invoker.line_brief e)))

end SoapNode
