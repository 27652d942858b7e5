import SoapNode.Handler.Exchange

/-!
# A record of what handlers are called for

A recorded handler behaves as the handler it was made from and writes an event for each of its calls.
The record shows what a processor does: the handlers that a request reaches form a prefix of the
chain, the way back makes no calls in the direction of the request, and closing calls exactly the
handlers that were reached, the last one first.
-/

namespace SoapNode

inductive Callback where
  | message
  | fault
  | close
  deriving DecidableEq, Repr

structure Event where
  handler : Nat
  kind : HandlerKind
  call : Callback
  direction : Direction
  deriving DecidableEq, Repr

abbrev Numbered (World : Type) := Handler World × Nat

variable {World : Type}

namespace Numbered

def event (call : Callback) (d : Direction) (h : Numbered World) : Event := ⟨h.2, h.1.kind, call, d⟩

/-- The handler, writing to the record beside its world. -/
def recorded (h : Numbered World) : Handler (World × List Event) where
  kind := h.1.kind
  headers := h.1.headers
  onMessage ctx p w :=
    let (r, p, world) := h.1.onMessage ctx p w.1
    (r, p, world, w.2 ++ [h.event .message ctx.direction])
  onFault ctx p w :=
    let (r, p, world) := h.1.onFault ctx p w.1
    (r, p, world, w.2 ++ [h.event .fault ctx.direction])
  onClose ctx p w :=
    let (p, world) := h.1.onClose ctx p w.1
    (p, world, w.2 ++ [h.event .close ctx.direction])

theorem record_onMessage (h : Numbered World) (ctx : HandlerContext) (p : Packet) (w : World × List Event) :
    (h.recorded.onMessage ctx p w).2.2.2 = w.2 ++ [h.event .message ctx.direction] := rfl

theorem record_onFault (h : Numbered World) (ctx : HandlerContext) (p : Packet) (w : World × List Event) :
    (h.recorded.onFault ctx p w).2.2.2 = w.2 ++ [h.event .fault ctx.direction] := rfl

theorem record_onClose (h : Numbered World) (ctx : HandlerContext) (p : Packet) (w : World × List Event) :
    (h.recorded.onClose ctx p w).2.2 = w.2 ++ [h.event .close ctx.direction] := rfl

end Numbered

open Numbered

/-- Events of a way that makes no close calls and goes in one direction. -/
def Along (d : Direction) (events : List Event) : Prop := ∀ e ∈ events, e.call ≠ .close ∧ e.direction = d

theorem along_event {d : Direction} {call : Callback} (hcall : call ≠ .close) (hs : List (Numbered World)) :
    Along d (hs.map (event call d)) := by
  intro e he
  obtain ⟨h, -, rfl⟩ := List.mem_map.mp he
  exact ⟨hcall, rfl⟩

/-- What runs between two worlds writes events of one direction only. -/
def Adds (d : Direction) (w w' : World × List Event) : Prop := ∃ events, Along d events ∧ w'.2 = w.2 ++ events

namespace Adds

variable {d : Direction} {u v w : World × List Event}

theorem refl (w : World × List Event) : Adds d w w := by
  refine ⟨[], ?_, (List.append_nil _).symm⟩
  rintro e ⟨⟩

theorem trans (h : Adds d u v) (h' : Adds d v w) : Adds d u w := by
  obtain ⟨events, halong, hv⟩ := h
  obtain ⟨events', halong', hw⟩ := h'
  refine ⟨events ++ events', ?_, by rw [hw, hv, List.append_assoc]⟩
  intro e he
  rcases List.mem_append.mp he with he | he
  · exact halong e he
  · exact halong' e he

end Adds

/-- A callback that writes one event of the direction in which it is made, and no close call. -/
def Tells (callback : Handler (World × List Event) → HandlerCallback (World × List Event)) : Prop :=
  ∀ (h : Numbered World) (ctx : HandlerContext) (p : Packet) (w : World × List Event),
    Adds ctx.direction w (callback h.recorded ctx p w).2.2

theorem tells_onMessage : @Tells World Handler.onMessage := by
  intro h ctx p w
  exact ⟨[h.event .message ctx.direction], along_event (by decide) [h], record_onMessage h ctx p w⟩

theorem tells_onFault : @Tells World Handler.onFault := by
  intro h ctx p w
  exact ⟨[h.event .fault ctx.direction], along_event (by decide) [h], record_onFault h ctx p w⟩

namespace Processor

variable {packet : Packet} {w : World × List Event}

/-- How many handlers a request has reached, of so many. -/
def Passage.count (length : Nat) : Passage → Nat
  | through => length
  | stopped i | raised i _ => i + 1

theorem lt_count_forward {V : Type} (ctx : HandlerContext) (position : Nat) (h : Handler V) (hs : List (Handler V))
    (p : Packet) (v : V) : position < (forward ctx position (h :: hs) p v).1.count (position + (h :: hs).length) := by
  induction hs generalizing position h p v with
  | nil =>
    rw [forward]
    split <;> simp [forward, Passage.count]
  | cons g hs ih =>
    rw [forward]
    split
    · rename_i p' v' _
      have hnext := ih (position + 1) g p' v'
      simp only [List.length_cons] at hnext ⊢
      rw [show position + (hs.length + 1 + 1) = position + 1 + (hs.length + 1) by omega]
      omega
    · exact Nat.lt_succ_self position
    · exact Nat.lt_succ_self position

theorem record_forward (ctx : HandlerContext) (position : Nat) (hs : List (Numbered World)) (p : Packet)
    (w : World × List Event) :
    (forward ctx position (hs.map recorded) p w).2.2.2 =
      w.2 ++ (hs.take ((forward ctx position (hs.map recorded) p w).1.count (position + hs.length) - position)).map
        (event .message ctx.direction) := by
  induction hs generalizing position p w with
  | nil => simp [forward]
  | cons h hs ih =>
    have hrecord := record_onMessage h ctx p w
    have hlength : position + (h :: hs).length = position + 1 + hs.length := by
      rw [List.length_cons]
      omega
    rw [List.map_cons, forward, hlength]
    cases hout : h.recorded.onMessage ctx p w with
    | mk r rest =>
      obtain ⟨p', w'⟩ := rest
      rw [hout] at hrecord
      have hw' : w'.2 = w.2 ++ [h.event .message ctx.direction] := hrecord
      cases r with
      | error e => simp [Passage.count, hw']
      | ok goes =>
        cases goes with
        | false => simp [Passage.count, hw']
        | true =>
          have hnext := ih (position + 1) p' w'
          have hcount : ∃ n, (forward ctx (position + 1) (hs.map recorded) p' w').1.count (position + 1 + hs.length) =
              position + 1 + n := by
            apply Nat.exists_eq_add_of_le
            cases hs with
            | nil => exact Nat.le_refl _
            | cons g hs =>
              have hlt := lt_count_forward ctx (position + 1) g.recorded (hs.map recorded) p' w'
              rw [List.length_cons, List.length_map] at hlt
              exact Nat.le_of_lt hlt
          obtain ⟨n, hn⟩ := hcount
          simp only
          rw [hnext, hn, hw', Nat.add_sub_cancel_left, show position + 1 + n - position = n + 1 by omega,
            List.take_succ_cons, List.map_cons, List.append_assoc, List.singleton_append]

variable {P : Processor (World × List Event)}

theorem adds_callEach {callback : Handler (World × List Event) → HandlerCallback (World × List Event)}
    (htells : Tells callback) (ctx : HandlerContext) (hs : List (Numbered World)) (p : Packet)
    (w : World × List Event) : Adds ctx.direction w (callEach callback ctx (hs.map recorded) p w).2.2 := by
  induction hs generalizing p w with
  | nil => exact .refl w
  | cons h hs ih =>
    have hadds := htells h ctx p w
    rw [List.map_cons, callEach]
    split
    all_goals
      rename_i hcall
      rw [hcall] at hadds
    · exact hadds.trans (ih _ _)
    · exact hadds
    · exact hadds

theorem turned_world {r : Except HandlerError Bool × Packet × World} : (turned r).2.2 = r.2.2 := by
  obtain ⟨e | b, p, w⟩ := r <;> rfl

theorem adds_backward (isFault : Bool) (hs : List (Numbered World)) (p : Packet) (w : World × List Event) :
    Adds P.responseContext.direction w (P.backward isFault (hs.map recorded) p w).2.2 := by
  induction hs generalizing p w with
  | nil => exact .refl w
  | cons h hs ih =>
    have hadds : Adds P.responseContext.direction w
        ((if isFault then h.recorded.onFault else h.recorded.onMessage) P.responseContext p w).2.2 := by
      cases isFault with
      | true => exact tells_onFault h P.responseContext p w
      | false => exact tells_onMessage h P.responseContext p w
    rw [List.map_cons, backward]
    split
    all_goals
      rename_i hcall
      rw [hcall] at hadds
    · exact hadds.trans (ih _ _)
    · exact hadds
    · split
      · split
        · exact hadds
        · rw [turned_world]
          exact hadds.trans (adds_callEach tells_onFault P.responseContext hs _ _)
      · exact hadds

/-- The processor has called these handlers on the way of the request, in this order, and has not closed them. -/
structure Saw (P : Processor (World × List Event)) (side : Side) (seen : List (Numbered World)) : Prop where
  side_eq : P.side = side
  reached_eq : P.reached = (seen.map recorded).reverse
  unclosed : P.closed = false

theorem adds_turned {d : Direction} {r : Except HandlerError Bool × Packet × World × List Event}
    {w : World × List Event} (h : Adds d w r.2.2) : Adds d w (turned r).2.2 := by
  rw [turned_world]
  exact h

section Recorded

variable {hs : List (Numbered World)} (hhandlers : P.handlers = hs.map recorded)

include hhandlers

theorem before_recorded (position : Nat) : P.before position = (hs.take position).reverse.map recorded := by
  rw [before, hhandlers, List.map_reverse, List.map_take]

theorem reached_at {position : Nat} (h : P.index = some position) :
    P.reached = ((hs.take (position + 1)).map recorded).reverse := by
  rw [reached, h, ← List.map_reverse]
  exact before_recorded hhandlers (position + 1)

theorem adds_turnBack {callback : Handler (World × List Event) → HandlerCallback (World × List Event)}
    (htells : Tells callback) (position : Nat) (p : Packet) (w : World × List Event) :
    Adds P.responseContext.direction w (turned (callEach callback P.responseContext (P.before position) p w)).2.2 := by
  rw [before_recorded hhandlers]
  exact adds_turned (adds_callEach htells P.responseContext _ p w)

/-- A request calls the handlers of the chain up to some place; what it calls after that goes the other way. -/
theorem saw_callRequest (p : Packet) (oneWay : Bool) (w : World × List Event) :
    ∃ seen, seen <+: hs ∧ (P.callRequest p oneWay w).2.1.Saw P.side seen ∧
      ∃ w', w'.2 = w.2 ++ seen.map (event .message P.side.requestDirection) ∧
        Adds P.side.requestDirection.reverse w' (P.callRequest p oneWay w).2.2.2 := by
  have hrecord := record_forward P.requestContext 0 hs p w
  rw [Nat.zero_add, Nat.sub_zero, ← hhandlers] at hrecord
  rcases hforward : forward P.requestContext 0 P.handlers p w with ⟨passage, p', w'⟩
  rw [hforward] at hrecord
  have hforward : forward { P with index := none, remedied := false, closed := false }.requestContext 0 P.handlers p w =
    (passage, p', w') := hforward
  -- A handler that stops the request, or raises an error on it, is the last one that sees it.
  let turnedAt (i : Nat) : Processor (World × List Event) :=
    { P with index := some i, remedied := true, closed := false }
  have hturned : ∀ i, (turnedAt i).handlers = hs.map recorded := fun _ => hhandlers
  have hsaw : ∀ i, (turnedAt i).Saw P.side (hs.take (i + 1)) := fun i => ⟨rfl, reached_at (hturned i) rfl, rfl⟩
  unfold callRequest
  cases passage with
  | through =>
    simp only [hforward]
    have htaken : hs.take hs.length = hs := List.take_length
    refine ⟨hs, List.prefix_rfl, ⟨rfl, ?_, rfl⟩, w',
      hrecord.trans (by rw [Passage.count, htaken]; rfl), .refl w'⟩
    cases hs with
    | nil => simp [reached, hhandlers]
    | cons h hs => simp [reached, before, hhandlers, List.take_of_length_le]
  | stopped i =>
    simp only [hforward]
    refine ⟨hs.take (i + 1), List.take_prefix _ _, ?_⟩
    cases oneWay with
    | true => exact ⟨hsaw i, w', hrecord, .refl w'⟩
    | false => exact ⟨hsaw i, w', hrecord, adds_turnBack (hturned i) tells_onMessage i p' w'⟩
  | raised i e =>
    simp only [hforward]
    refine ⟨hs.take (i + 1), List.take_prefix _ _, ?_⟩
    split
    · split
      · exact ⟨hsaw i, w', hrecord, .refl w'⟩
      · exact ⟨hsaw i, w', hrecord, adds_turnBack (hturned i) tells_onFault i _ w'⟩
    · exact ⟨hsaw i, w', hrecord, .refl w'⟩

end Recorded

theorem adds_callResponse {side : Side} {seen : List (Numbered World)} (h : P.Saw side seen)
    (p : Packet) (isFault : Bool) (w : World × List Event) :
    Adds side.requestDirection.reverse w (P.callResponse p isFault w).2.2 := by
  rw [callResponse]
  split
  · exact .refl w
  · rw [h.reached_eq, ← List.map_reverse, ← h.side_eq]
    exact adds_backward isFault seen.reverse p w

theorem record_closeEach (ctx : HandlerContext) (hs : List (Numbered World)) (p : Packet) (w : World × List Event) :
    (closeEach ctx (hs.map recorded) p w).2.2 = w.2 ++ hs.map (event .close ctx.direction) := by
  induction hs generalizing p w with
  | nil => exact (List.append_nil _).symm
  | cons h hs ih =>
    rw [List.map_cons, closeEach, ih, record_onClose, List.map_cons, List.append_assoc, List.singleton_append]

theorem record_close {side : Side} {seen : List (Numbered World)} (h : P.Saw side seen) (p : Packet)
    (w : World × List Event) :
    (P.close p w).2.2.2 = w.2 ++ seen.reverse.map (event .close side.requestDirection.reverse) := by
  rw [close, h.unclosed]
  have hreached : ({ P with closed := true } : Processor _).reached = seen.reverse.map recorded := by
    rw [List.map_reverse, ← h.reached_eq]
    rfl
  simp only [Bool.false_eq_true, if_false, hreached, record_closeEach, ← h.side_eq]
  rfl

theorem closed_close (P : Processor World) (p : Packet) (w : World) : (P.close p w).1.closed = true := by
  rw [close]
  split
  · assumption
  · rfl

theorem close_of_closed {P : Processor World} (h : P.closed = true) (p : Packet) (w : World) :
    P.close p w = (P, p, w) := by
  rw [close, if_pos h]

end Processor

end SoapNode
