import SoapNode.Handler.Exchange

/-!
# Handlers as functions of their arguments

A handler respects a relation of worlds if its callbacks do the same to a packet in related worlds, and
leave the worlds related. What a processor does with such handlers then depends on the world no more
than they do.
-/

namespace SoapNode

variable {World : Type} {R : World → World → Prop} {u v : World}

/-- Two outcomes, each with a world, that are the same up to the worlds. -/
structure Alike {α β : Type} (R : World → World → Prop) (x y : α × β × World) : Prop where
  first : x.1 = y.1
  second : x.2.1 = y.2.1
  world : R x.2.2 y.2.2

theorem Alike.parts {α β : Type} {x y : α × β × World} (h : Alike R x y) :
    ∃ a b u v, x = (a, b, u) ∧ y = (a, b, v) ∧ R u v := by
  obtain ⟨a, b, u⟩ := x
  obtain ⟨a', b', v⟩ := y
  obtain ⟨rfl, rfl, hR⟩ := h
  exact ⟨a, b, u, v, rfl, rfl, hR⟩

structure Handler.Respects (R : World → World → Prop) (h : Handler World) : Prop where
  onMessage : ∀ ctx p u v, R u v → Alike R (h.onMessage ctx p u) (h.onMessage ctx p v)
  onFault : ∀ ctx p u v, R u v → Alike R (h.onFault ctx p u) (h.onFault ctx p v)
  onClose : ∀ ctx p u v, R u v → (h.onClose ctx p u).1 = (h.onClose ctx p v).1 ∧
    R (h.onClose ctx p u).2 (h.onClose ctx p v).2

/-- A handler that makes the same of a packet in every world. -/
def Handler.Functional (h : Handler World) : Prop := h.Respects (fun _ _ => True)

/-- A kind of callback that all handlers of a list make in respect of the relation. -/
def Handler.Respectful (R : World → World → Prop) (callback : Handler World → HandlerCallback World)
    (hs : List (Handler World)) : Prop :=
  ∀ h ∈ hs, ∀ ctx p u v, R u v → Alike R (callback h ctx p u) (callback h ctx p v)

namespace Processor

variable {hs : List (Handler World)} {P : Processor World}

theorem alike_forward (hhs : Handler.Respectful R Handler.onMessage hs) (ctx : HandlerContext)
    (position : Nat) (p : Packet) (hR : R u v) :
    Alike R (forward ctx position hs p u) (forward ctx position hs p v) := by
  induction hs generalizing position p u v with
  | nil => exact ⟨rfl, rfl, hR⟩
  | cons h hs ih =>
    obtain ⟨hh, hhs⟩ := List.forall_mem_cons.mp hhs
    obtain ⟨r, p', u', v', hu, hv, hR'⟩ := (hh ctx p u v hR).parts
    rw [forward, forward, hu, hv]
    rcases r with e | goes
    · exact ⟨rfl, rfl, hR'⟩
    · cases goes with
      | false => exact ⟨rfl, rfl, hR'⟩
      | true => exact ih hhs _ _ hR'

theorem alike_callEach {callback : Handler World → HandlerCallback World} (hhs : Handler.Respectful R callback hs)
    (ctx : HandlerContext) (p : Packet) (hR : R u v) :
    Alike R (callEach callback ctx hs p u) (callEach callback ctx hs p v) := by
  induction hs generalizing p u v with
  | nil => exact ⟨rfl, rfl, hR⟩
  | cons h hs ih =>
    obtain ⟨hh, hhs⟩ := List.forall_mem_cons.mp hhs
    obtain ⟨r, p', u', v', hu, hv, hR'⟩ := (hh ctx p u v hR).parts
    rw [callEach, callEach, hu, hv]
    rcases r with e | goes
    · exact ⟨rfl, rfl, hR'⟩
    · cases goes with
      | false => exact ⟨rfl, rfl, hR'⟩
      | true => exact ih hhs _ hR'

theorem alike_turned {x y : Except HandlerError Bool × Packet × World} (h : Alike R x y) :
    Alike R (turned x) (turned y) := by
  obtain ⟨r, p, u, v, rfl, rfl, hR⟩ := h.parts
  cases r <;> exact ⟨rfl, rfl, hR⟩

theorem alike_closeEach (hhs : ∀ h ∈ hs, h.Respects R) (ctx : HandlerContext) (p : Packet) (hR : R u v) :
    (closeEach ctx hs p u).1 = (closeEach ctx hs p v).1 ∧ R (closeEach ctx hs p u).2 (closeEach ctx hs p v).2 := by
  induction hs generalizing p u v with
  | nil => exact ⟨rfl, hR⟩
  | cons h hs ih =>
    obtain ⟨hh, hhs⟩ := List.forall_mem_cons.mp hhs
    obtain ⟨hp, hR'⟩ := hh.onClose ctx p u v hR
    rw [closeEach, closeEach]
    simp only [hp]
    exact ih hhs _ hR'

/-- A processor whose handlers all respect the relation. -/
def Respects (R : World → World → Prop) (P : Processor World) : Prop := ∀ h ∈ P.handlers, h.Respects R

namespace Respects

theorem before (hP : P.Respects R) (position : Nat) : ∀ h ∈ P.before position, h.Respects R := by
  intro h hh
  exact hP h (List.mem_of_mem_take (List.mem_reverse.mp hh))

theorem reached (hP : P.Respects R) : ∀ h ∈ P.reached, h.Respects R := by
  unfold Processor.reached
  split
  · exact nofun
  · exact hP.before _

end Respects

/-- The way back from a handler that turned the request around. -/
theorem alike_turnBack {callback : Handler World → HandlerCallback World}
    (hcallback : ∀ h : Handler World, h.Respects R → ∀ ctx p u v, R u v →
      Alike R (callback h ctx p u) (callback h ctx p v))
    (hP : P.Respects R) (position : Nat) (p : Packet) (hR : R u v) :
    Alike R (turned (callEach callback P.responseContext (P.before position) p u))
      (turned (callEach callback P.responseContext (P.before position) p v)) :=
  alike_turned (alike_callEach (fun h hh => hcallback h (hP.before position h hh)) _ p hR)

/-- A request takes the same course, and leaves the processor the same. -/
theorem alike_callRequest (hP : P.Respects R) (p : Packet) (oneWay : Bool) (hR : R u v) :
    (P.callRequest p oneWay u).2.1.Respects R ∧ (P.callRequest p oneWay u).1 = (P.callRequest p oneWay v).1 ∧
      Alike R (P.callRequest p oneWay u).2 (P.callRequest p oneWay v).2 := by
  obtain ⟨passage, p', u', v', hu, hv, hR'⟩ :=
    (alike_forward (fun h hh => (hP h hh).onMessage) P.requestContext 0 p hR).parts
  have hu : forward { P with index := none, remedied := false, closed := false }.requestContext 0 P.handlers p u =
    (passage, p', u') := hu
  have hv : forward { P with index := none, remedied := false, closed := false }.requestContext 0 P.handlers p v =
    (passage, p', v') := hv
  let turnedAt (i : Nat) : Processor World := { P with index := some i, remedied := true, closed := false }
  have hturned (i : Nat) : (turnedAt i).Respects R := hP
  unfold callRequest
  simp only [hu, hv]
  cases passage with
  | through => exact ⟨hP, rfl, rfl, rfl, hR'⟩
  | stopped i =>
    cases oneWay with
    | true => exact ⟨hP, rfl, rfl, rfl, hR'⟩
    | false =>
      have hback := alike_turnBack (fun _ hh => hh.onMessage) (hturned i) i p' hR'
      exact ⟨hP, hback.first, rfl, hback.second, hback.world⟩
  | raised i e =>
    cases e with
    | protocol fault =>
      cases oneWay with
      | true => exact ⟨hP, rfl, rfl, rfl, hR'⟩
      | false =>
        have hback := alike_turnBack (fun _ hh => hh.onFault) (hturned i) i ((turnedAt i).insertFault p' fault) hR'
        exact ⟨hP, hback.first, rfl, hback.second, hback.world⟩
    | _ => exact ⟨hP, rfl, rfl, rfl, hR'⟩

theorem alike_backward (hhs : ∀ h ∈ hs, h.Respects R) (isFault : Bool) (p : Packet) (hR : R u v) :
    Alike R (P.backward isFault hs p u) (P.backward isFault hs p v) := by
  induction hs generalizing p u v with
  | nil => exact ⟨rfl, rfl, hR⟩
  | cons h hs ih =>
    obtain ⟨hh, hhs⟩ := List.forall_mem_cons.mp hhs
    have hcall : Alike R ((if isFault then h.onFault else h.onMessage) P.responseContext p u)
        ((if isFault then h.onFault else h.onMessage) P.responseContext p v) := by
      cases isFault with
      | true => exact hh.onFault _ p u v hR
      | false => exact hh.onMessage _ p u v hR
    obtain ⟨r, p', u', v', hu, hv, hR'⟩ := hcall.parts
    rw [backward, backward, hu, hv]
    rcases r with e | goes
    · cases e with
      | protocol fault =>
        cases isFault with
        | true => exact ⟨rfl, rfl, hR'⟩
        | false => exact alike_turned (alike_callEach (fun h hh => (hhs h hh).onFault) _ _ hR')
      | _ => exact ⟨rfl, rfl, hR'⟩
    · cases goes with
      | false => exact ⟨rfl, rfl, hR'⟩
      | true => exact ih hhs _ hR'

theorem alike_callResponse (hP : P.Respects R) (p : Packet) (isFault : Bool) (hR : R u v) :
    Alike R (P.callResponse p isFault u) (P.callResponse p isFault v) := by
  unfold callResponse
  split
  · exact ⟨rfl, rfl, hR⟩
  · exact alike_backward hP.reached isFault p hR

theorem alike_close (hP : P.Respects R) (p : Packet) (hR : R u v) :
    (P.close p u).1.Respects R ∧ Alike R (P.close p u) (P.close p v) := by
  unfold close
  split
  · exact ⟨hP, rfl, rfl, hR⟩
  · have hclosed : Respects R { P with closed := true } := hP
    obtain ⟨hp, hR'⟩ := alike_closeEach hclosed.reached
      ({ P with closed := true } : Processor World).responseContext p hR
    exact ⟨hclosed, rfl, hp, hR'⟩

end Processor

namespace HandlerExchange

/-- The processors in use have handlers that respect the relation. -/
def Respects (R : World → World → Prop) (x : HandlerExchange World) : Prop :=
  ∀ kind, ∀ P ∈ (x.leg kind).processor, P.Respects R

theorem Respects.fresh : (fresh : HandlerExchange World).Respects R := by
  intro kind P hP
  cases kind <;> cases hP

theorem Respects.setLeg {x : HandlerExchange World} (hx : x.Respects R) (kind : HandlerKind) {l : Leg World}
    (hl : ∀ P ∈ l.processor, P.Respects R) : (x.setLeg kind l).Respects R := by
  intro kind' P hP
  cases kind <;> cases kind'
  · exact hl P hP
  · exact hx .soap P hP
  · exact hx .logical P hP
  · exact hl P hP

theorem alike_closeLeg {x : HandlerExchange World} (hx : x.Respects R) (kind : HandlerKind) (p : Packet) (hR : R u v) :
    (x.closeLeg kind p u).1.Respects R ∧ Alike R (x.closeLeg kind p u) (x.closeLeg kind p v) := by
  unfold closeLeg
  split
  · exact ⟨hx, rfl, rfl, hR⟩
  · rename_i P hP
    obtain ⟨hP', hclose⟩ := Processor.alike_close (hx kind P hP) p hR
    obtain ⟨P', p', u', v', hu, hv, hR'⟩ := hclose.parts
    rw [hu] at hP'
    rw [hu, hv]
    refine ⟨hx.setLeg kind ?_, rfl, rfl, hR'⟩
    rintro _ ⟨⟩
    exact hP'

end HandlerExchange

end SoapNode
