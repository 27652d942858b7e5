import Mathlib.Data.List.Nodup
import SoapNode.Proofs.Handler.Record
import SoapNode.Stage.Handlers

/-!
# An exchange of two recorded handler stages

Midway through an exchange its events make no close calls, and the two legs hold exactly the handlers
that the request has called. The requests and the responses of both stages keep this. When the outer
stage closes, what it adds are the close calls of these handlers, the inner kind first, and there is
nothing left to close.
-/

namespace SoapNode

open Numbered HandlerStage

variable {World : Type}

def recordAll (hs : List (Handler World)) : List (Handler (World × List Event)) := hs.zipIdx.map recorded

def ofKind (kind : HandlerKind) (hs : List (Handler World)) : List (Numbered World) :=
  hs.zipIdx.filter (·.1.kind = kind)

theorem handlers_recordAll {c : HandlerConfiguration (World × List Event)} {hs : List (Handler World)}
    (h : c.chain = recordAll hs) (kind : HandlerKind) : c.handlers kind = (ofKind kind hs).map recorded := by
  rw [HandlerConfiguration.handlers, h, recordAll, List.filter_map]
  rfl

/-- The handlers of one kind that a request has called. -/
def requested (d : Direction) (kind : HandlerKind) (events : List Event) : List Nat :=
  (events.filter (fun e => e.call = .message ∧ e.direction = d ∧ e.kind = kind)).map (·.handler)

section Requested

variable {d d' : Direction} {kind kind' : HandlerKind} {events : List Event} {seen : List (Numbered World)}

theorem requested_append (events' : List Event) :
    requested d kind (events ++ events') = requested d kind events ++ requested d kind events' := by
  rw [requested, List.filter_append, List.map_append]
  rfl

theorem requested_along (hd : d' ≠ d) (h : Along d' events) : requested d kind events = [] := by
  rw [requested, List.map_eq_nil_iff, List.filter_eq_nil_iff]
  intro e he
  have := (h e he).2
  grind

theorem requested_seen (h : ∀ n ∈ seen, n.1.kind = kind) :
    requested d kind (seen.map (event .message d)) = seen.map (·.2) := by
  rw [requested, List.filter_eq_self.mpr, List.map_map]
  · rfl
  · intro e he
    obtain ⟨n, hn, rfl⟩ := List.mem_map.mp he
    simpa [event] using h n hn

theorem requested_other (hkind : kind' ≠ kind) (h : ∀ n ∈ seen, n.1.kind = kind') :
    requested d kind (seen.map (event .message d)) = [] := by
  rw [requested, List.map_eq_nil_iff, List.filter_eq_nil_iff]
  intro e he
  obtain ⟨n, hn, rfl⟩ := List.mem_map.mp he
  have := h n hn
  grind [event]

end Requested

theorem kind_of_ofKind {kind : HandlerKind} {hs : List (Handler World)} {n : Numbered World}
    (h : n ∈ ofKind kind hs) : n.1.kind = kind := by
  simpa using (List.mem_filter.mp h).2

theorem nodup_places {kind kind' : HandlerKind} (hkind : kind ≠ kind') {hs : List (Handler World)}
    {seen seen' : List (Numbered World)} (h : seen <+: ofKind kind hs) (h' : seen' <+: ofKind kind' hs) :
    ((seen.map (·.2)).reverse ++ (seen'.map (·.2)).reverse).Nodup := by
  have hplaces : (hs.zipIdx.map (·.2)).Nodup := by
    rw [List.zipIdx_map_snd]
    exact List.nodup_range'
  have hsub : seen.Sublist hs.zipIdx := h.sublist.trans List.filter_sublist
  have hsub' : seen'.Sublist hs.zipIdx := h'.sublist.trans List.filter_sublist
  refine List.Nodup.append (List.nodup_reverse.mpr (hplaces.sublist (hsub.map _)))
    (List.nodup_reverse.mpr (hplaces.sublist (hsub'.map _))) ?_
  intro i hi hi'
  obtain ⟨n, hn, rfl⟩ := List.mem_map.mp (List.mem_reverse.mp hi)
  obtain ⟨n', hn', hplace⟩ := List.mem_map.mp (List.mem_reverse.mp hi')
  have hsame : n' = n := List.inj_on_of_nodup_map hplaces (hsub'.subset hn') (hsub.subset hn) hplace
  apply hkind
  rw [← kind_of_ofKind (h.subset hn), ← kind_of_ofKind (h'.subset hn'), hsame]

namespace Leg

/-- The processor of the leg has called these handlers and has not closed them. -/
def Saw (l : Leg (World × List Event)) (side : Side) (seen : List (Numbered World)) : Prop :=
  match l.processor with
  | none => seen = []
  | some P => P.Saw side seen

/-- There is nothing left to close. -/
def Shut (l : Leg (World × List Event)) : Prop := ∀ P, l.processor = some P → P.closed = true

theorem saw_fresh (side : Side) : (fresh : Leg (World × List Event)).Saw side [] := rfl

end Leg

namespace HandlerExchange

variable {kind kind' : HandlerKind} {x : HandlerExchange (World × List Event)}

theorem leg_setLeg (x : HandlerExchange World) (kind : HandlerKind) (l : Leg World) :
    (x.setLeg kind l).leg kind = l := by
  cases kind <;> rfl

theorem leg_setLeg_of_ne (h : kind' ≠ kind) (x : HandlerExchange World) (l : Leg World) :
    (x.setLeg kind l).leg kind' = x.leg kind' := by
  cases kind <;> cases kind' <;> first | rfl | exact absurd rfl h

theorem setLeg_self (x : HandlerExchange World) (kind : HandlerKind) : x.setLeg kind (x.leg kind) = x := by
  cases kind <;> rfl

theorem leg_fresh (kind : HandlerKind) : (fresh : HandlerExchange World).leg kind = .fresh := by
  cases kind <;> rfl

theorem closeLeg_saw {side : Side} {seen : List (Numbered World)} (h : (x.leg kind).Saw side seen) (p : Packet)
    (w : World × List Event) :
    (x.closeLeg kind p w).2.2.2 = w.2 ++ seen.reverse.map (event .close side.requestDirection.reverse) := by
  rw [closeLeg]
  rw [Leg.Saw] at h
  split <;> rename_i hleg
  · rw [hleg] at h
    cases h
    exact (List.append_nil _).symm
  · rw [hleg] at h
    exact Processor.record_close h p w

theorem closeLeg_shut (h : (x.leg kind).Shut) (p : Packet) (w : World × List Event) :
    x.closeLeg kind p w = (x, p, w) := by
  rw [closeLeg]
  split
  · rfl
  · rename_i P hleg
    have hself : ({ x.leg kind with processor := some P } : Leg _) = x.leg kind := by rw [← hleg]
    rw [Processor.close_of_closed (h P hleg)]
    simp only [hself, setLeg_self]

theorem shut_closeLeg (x : HandlerExchange (World × List Event)) (kind : HandlerKind) (p : Packet)
    (w : World × List Event) : ((x.closeLeg kind p w).1.leg kind).Shut := by
  rw [closeLeg]
  split
  · rename_i hleg
    intro P hP
    rw [hleg] at hP
    cases hP
  · intro P hP
    rw [leg_setLeg] at hP
    cases hP
    exact Processor.closed_close _ p w

theorem successful_closeLeg (x : HandlerExchange World) (kind kind' : HandlerKind) (p : Packet) (w : World) :
    ((x.closeLeg kind p w).1.leg kind').successful = (x.leg kind').successful := by
  rw [closeLeg]
  split
  · rfl
  · cases kind <;> cases kind' <;> rfl

theorem leg_closeLeg_of_ne (h : kind' ≠ kind) (x : HandlerExchange World) (p : Packet) (w : World) :
    (x.closeLeg kind p w).1.leg kind' = x.leg kind' := by
  rw [closeLeg]
  split
  · rfl
  · exact leg_setLeg_of_ne h x _

end HandlerExchange

abbrev innerKind (side : Side) : HandlerKind := cousin (outerKind side)

theorem innerKind_ne (side : Side) : innerKind side ≠ outerKind side := by
  cases side <;> decide

/-- An exchange that has made these calls and closed nothing. -/
structure Midway (side : Side) (hs : List (Handler World)) (x : HandlerExchange (World × List Event))
    (calls : List Event) : Prop where
  quiet : ∀ e ∈ calls, e.call ≠ .close
  saw : ∀ kind, ∃ seen, seen <+: ofKind kind hs ∧ (x.leg kind).Saw side seen ∧
    requested side.requestDirection kind calls = seen.map (·.2)
  /-- The inner stage runs only after the outer one has let the request through. -/
  blocked : (x.leg (outerKind side)).successful = false → requested side.requestDirection (innerKind side) calls = []

/-- Every handler that the request has called is closed once, after all other calls, and no other is: first those of
the inner stage, the last one called first, and then those of the outer stage. -/
def ClosesOnce (side : Side) (events : List Event) : Prop :=
  ∃ calls closes, events = calls ++ closes ∧ (∀ e ∈ calls, e.call ≠ .close) ∧
    (∀ e ∈ closes, e.call = .close) ∧
    closes.map (·.handler) = (requested side.requestDirection (innerKind side) calls).reverse ++
      (requested side.requestDirection (outerKind side) calls).reverse ∧
    (closes.map (·.handler)).Nodup

theorem requestDirection_reverse_ne (side : Side) : side.requestDirection.reverse ≠ side.requestDirection := by
  cases side <;> decide

namespace Midway

variable {side : Side} {hs : List (Handler World)} {x : HandlerExchange (World × List Event)} {calls : List Event}

theorem fresh (side : Side) (hs : List (Handler World)) :
    Midway side hs (.fresh : HandlerExchange (World × List Event)) [] := by
  refine ⟨?_, fun kind => ⟨[], List.nil_prefix, ?_, rfl⟩, fun _ => rfl⟩
  · rintro e ⟨⟩
  · rw [HandlerExchange.leg_fresh]
    exact Leg.saw_fresh side

theorem append (h : Midway side hs x calls) {events : List Event}
    (halong : Along side.requestDirection.reverse events) : Midway side hs x (calls ++ events) := by
  have hnone : ∀ kind, requested side.requestDirection kind events = [] :=
    fun kind => requested_along (requestDirection_reverse_ne side) halong
  refine ⟨?_, ?_, ?_⟩
  · intro e he
    rcases List.mem_append.mp he with he | he
    · exact h.quiet e he
    · exact (halong e he).1
  · intro kind
    obtain ⟨seen, hinitial, hsaw, hcalls⟩ := h.saw kind
    refine ⟨seen, hinitial, hsaw, ?_⟩
    rw [requested_append, hnone, List.append_nil, hcalls]
  · intro hclosed
    rw [requested_append, hnone, List.append_nil, h.blocked hclosed]

theorem renew (h : Midway side hs x calls) (hnone : requested side.requestDirection (innerKind side) calls = []) :
    Midway side hs (x.setLeg (innerKind side) .fresh) calls := by
  refine ⟨h.quiet, ?_, ?_⟩
  · intro kind
    by_cases hkind : kind = innerKind side
    · subst hkind
      refine ⟨[], List.nil_prefix, ?_, hnone⟩
      rw [HandlerExchange.leg_setLeg]
      exact Leg.saw_fresh side
    · rw [HandlerExchange.leg_setLeg_of_ne hkind]
      exact h.saw kind
  · intro _
    exact hnone

theorem pass (h : Midway side hs x calls) {kind : HandlerKind} : Midway side hs
    (x.setLeg kind { x.leg kind with successful := true }) calls := by
  refine ⟨h.quiet, ?_, ?_⟩
  · intro kind'
    by_cases hkind : kind' = kind
    · subst hkind
      rw [HandlerExchange.leg_setLeg]
      exact h.saw kind'
    · rw [HandlerExchange.leg_setLeg_of_ne hkind]
      exact h.saw kind'
  · intro hclosed
    by_cases hkind : outerKind side = kind
    · subst hkind
      rw [HandlerExchange.leg_setLeg] at hclosed
      cases hclosed
    · rw [HandlerExchange.leg_setLeg_of_ne hkind] at hclosed
      exact h.blocked hclosed

theorem call (h : Midway side hs x calls) {kind : HandlerKind} {seen : List (Numbered World)}
    {P : Processor (World × List Event)} (passed : Bool) (hinitial : seen <+: ofKind kind hs) (hsaw : P.Saw side seen)
    (hturn : kind = outerKind side ∧ calls = [] ∨ kind = innerKind side ∧
      (x.leg (outerKind side)).successful = true ∧
      requested side.requestDirection kind calls = []) :
    Midway side hs (x.setLeg kind ⟨some P, passed⟩) (calls ++ seen.map (event .message side.requestDirection)) := by
  have hkinds : ∀ n ∈ seen, n.1.kind = kind := fun n hn => kind_of_ofKind (hinitial.subset hn)
  have hnone : requested side.requestDirection kind calls = [] := by
    rcases hturn with ⟨-, rfl⟩ | ⟨-, -, hnone⟩
    · rfl
    · exact hnone
  refine ⟨?_, ?_, ?_⟩
  · intro e he
    rcases List.mem_append.mp he with he | he
    · exact h.quiet e he
    · exact (along_event (by decide) seen e he).1
  · intro kind'
    by_cases hkind : kind' = kind
    · subst hkind
      refine ⟨seen, hinitial, ?_, ?_⟩
      · rw [HandlerExchange.leg_setLeg]
        exact hsaw
      · rw [requested_append, hnone, List.nil_append, requested_seen hkinds]
    · obtain ⟨seen', hinitial', hsaw', hcalls⟩ := h.saw kind'
      refine ⟨seen', hinitial', ?_, ?_⟩
      · rw [HandlerExchange.leg_setLeg_of_ne hkind]
        exact hsaw'
      · rw [requested_append, requested_other (Ne.symm hkind) hkinds, List.append_nil, hcalls]
  · intro hclosed
    rcases hturn with ⟨rfl, rfl⟩ | ⟨rfl, hopen, -⟩
    · exact requested_other (innerKind_ne side).symm hkinds
    · rw [HandlerExchange.leg_setLeg_of_ne (innerKind_ne side).symm, hopen] at hclosed
      cases hclosed

theorem closesOnce (h : Midway side hs x calls) {inner outer : List (Numbered World)}
    (hinner : inner <+: ofKind (innerKind side) hs) (houter : outer <+: ofKind (outerKind side) hs)
    (hinnerCalls : requested side.requestDirection (innerKind side) calls = inner.map (·.2))
    (houterCalls : requested side.requestDirection (outerKind side) calls = outer.map (·.2)) (d : Direction) :
    ClosesOnce side (calls ++ (inner.reverse ++ outer.reverse).map (event .close d)) := by
  refine ⟨calls, _, rfl, h.quiet, ?_, ?_, ?_⟩
  · intro e he
    obtain ⟨n, -, rfl⟩ := List.mem_map.mp he
    rfl
  · rw [hinnerCalls, houterCalls, List.map_map, List.map_append, List.map_reverse, List.map_reverse]
    rfl
  · rw [List.map_map, List.map_append, List.map_reverse, List.map_reverse]
    exact nodup_places (innerKind_ne side) hinner houter

end Midway

end SoapNode
