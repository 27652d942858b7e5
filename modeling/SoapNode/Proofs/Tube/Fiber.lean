import SoapNode.Proofs.Tube.Recursion

/-!
# What a tube makes of a packet

Most tubes run no other tube when a response comes back to them. `Settles` is the recursion for these: a
tube that answers settles a packet at once, one that invokes another settles it with what it makes of the
other's result. A fiber comes to that result.
-/

namespace SoapNode

/-- The result of an answer that runs no other tube. -/
def NextAction.result? : NextAction → Option (Except RuntimeError Packet)
  | .ret p => some (.ok p)
  | .throw e => some (.error e)
  | .invoke _ _ | .invokeAndForget _ _ => none

namespace Fiber

variable {σ : Type} {cb : Callbacks σ}

/-- A tube turns a packet into a result. -/
inductive Settles (cb : Callbacks σ) : TubeId → Packet → σ → Except RuntimeError Packet → σ → Prop where
  | answers {tube p s action s' r} (request : cb.request tube p s = (action, s')) (result : action.result? = some r) :
      Settles cb tube p s r s'
  | forgets {tube p s next p' s' r s''} (request : cb.request tube p s = (.invokeAndForget next p', s'))
      (inner : Settles cb next p' s' r s'') : Settles cb tube p s r s''
  | invokes {tube p s next p' s' r s'' action s''' r'} (request : cb.request tube p s = (.invoke next p', s'))
      (inner : Settles cb next p' s' r s'') (back : cb.back tube r s'' = (action, s'''))
      (result : action.result? = some r') : Settles cb tube p s r' s'''

theorem evaluates_of_result {tube : TubeId} {action : NextAction} {r : Except RuntimeError Packet}
    (h : action.result? = some r) (s : σ) : Evaluates cb tube action s r s [] := by
  cases action with
  | invoke next p => cases h
  | invokeAndForget next p => cases h
  | ret p =>
    cases h
    exact .ret
  | throw e =>
    cases h
    exact .throw

theorem Settles.handles {tube : TubeId} {p : Packet} {s s' : σ} {r : Except RuntimeError Packet}
    (h : Settles cb tube p s r s') : ∃ visits, Handles cb tube p s r s' visits := by
  induction h with
  | answers request result => exact ⟨_, _, _, [], request, evaluates_of_result result _, rfl⟩
  | forgets request inner ih =>
    obtain ⟨visits, a, s₁, rest, hrequest, hrest, rfl⟩ := ih
    exact ⟨_, _, _, _, request, .forget hrequest hrest, rfl⟩
  | invokes request inner back result ih =>
    obtain ⟨visits, a, s₁, rest, hrequest, hrest, rfl⟩ := ih
    exact ⟨_, _, _, _, request, .invoke hrequest hrest back (evaluates_of_result result _), rfl⟩

/-- A fiber ends an exchange with the result of its head. -/
theorem run_of_settles {f : Fiber} {p : Packet} {s s' : σ} {r : Except RuntimeError Packet}
    (h : Settles cb f.head p s r s') (hopen : f.state ≠ .closed) :
    run cb f p s = (r, { f with state := .idle, stack := [] }, s') := by
  obtain ⟨visits, hhandles⟩ := h.handles
  exact run_of_handles hhandles hopen

end Fiber

namespace Plant

variable {Cell World : Type} {tubes : List (Tube Cell World)} {id : TubeId} {t : Tube Cell World}

theorem request_eq (h : tubes[id]? = some t) (p : Packet) (s : Store Cell World) :
    (callbacks tubes).request id p s = t.stage.request ⟨id, t.successors, t.cells⟩ p s := by
  simp only [callbacks, h]

theorem response_eq (h : tubes[id]? = some t) (p : Packet) (s : Store Cell World) :
    (callbacks tubes).response id p s = t.stage.response ⟨id, t.successors, t.cells⟩ p s := by
  simp only [callbacks, h]

theorem exception_eq (h : tubes[id]? = some t) (e : RuntimeError) (s : Store Cell World) :
    (callbacks tubes).exception id e s = t.stage.exception ⟨id, t.successors, t.cells⟩ e s := by
  simp only [callbacks, h]

theorem back_eq (h : tubes[id]? = some t) (r : Except RuntimeError Packet) (s : Store Cell World) :
    (callbacks tubes).back id r s = match r with
      | .ok p => t.stage.response ⟨id, t.successors, t.cells⟩ p s
      | .error e => t.stage.exception ⟨id, t.successors, t.cells⟩ e s := by
  cases r with
  | ok p => exact response_eq h p s
  | error e => exact exception_eq h e s

end Plant

end SoapNode
