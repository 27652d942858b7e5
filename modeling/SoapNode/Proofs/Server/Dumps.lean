import SoapNode.Proofs.Message.Delivery
import SoapNode.Proofs.Server.Answers
import SoapNode.Proofs.Stage.Brevity
import SoapNode.Proofs.Stage.Dumping

/-!
# Servers with a dump

The dump is the first stage of a server that has one. What it adds to an exchange of the other stages is a
record; so the server gives the answers of one without a dump, unless a response with a source goes past it.
-/

namespace SoapNode

open Assembly

variable {World : Type}

/-- Sites that differ in nothing but what was dumped. -/
abbrev Site.likenessButDumps (b : Binding World) (clock : Instant) : Likeness (HandlerExchange World) (Site World) :=
  Site.likeness b clock true Eq

theorem Handler.respects_eq (h : Handler World) : h.Respects Eq where
  onMessage _ _ _ _ hR := hR ▸ ⟨rfl, rfl, rfl⟩
  onFault _ _ _ _ hR := hR ▸ ⟨rfl, rfl, rfl⟩
  onClose _ _ _ _ hR := hR ▸ ⟨rfl, rfl⟩

theorem Operation.respects_eq (o : Operation World) : o.Respects Eq := fun _ _ _ hR => hR ▸ ⟨rfl, rfl⟩

namespace Site.Alike

variable {b : Binding World} {clock : Instant} {s s' s'' : Site World}

theorem refl_eq (hbinding : s.binding = b) (hclock : s.clock = clock) : Site.Alike b clock true Eq s s :=
  ⟨hbinding, hbinding, hclock, hclock, fun _ => rfl, rfl⟩

theorem symm_eq (h : Site.Alike b clock true Eq s s') : Site.Alike b clock true Eq s' s :=
  ⟨h.binding_eq', h.binding_eq, h.clock_eq', h.clock_eq, fun _ => (h.issued_eq rfl).symm, h.world.symm⟩

theorem trans_eq (h : Site.Alike b clock true Eq s s') (h' : Site.Alike b clock true Eq s' s'') :
    Site.Alike b clock true Eq s s'' :=
  ⟨h.binding_eq, h'.binding_eq', h.clock_eq, h'.clock_eq', fun _ => (h.issued_eq rfl).trans (h'.issued_eq rfl),
    h.world.trans h'.world⟩

theorem dump_eq (h : Site.Alike b clock true Eq s s') (dumps : List DumpEvent) :
    Site.Alike b clock true Eq s { s' with dumps } :=
  ⟨h.binding_eq, h.binding_eq', h.clock_eq, h.clock_eq', h.issued_eq, h.world⟩

end Site.Alike

/-! ### A dump in front of a template -/

theorem Regular.image_self {Cell : Type} [Inhabited Cell] {L : Likeness Cell World}
    {tubes : List (Tube Cell World)} {head : TubeId} (h : Regular L tubes head) :
    Image tubes head tubes ⟨id, id⟩ where
  tube id hid := by
    have ht := List.getElem?_eq_getElem (h.exist id hid)
    refine ⟨_, ht, ht.trans ?_⟩
    simp [Tube.rename]
  sharing _ _ _ _ _ _ _ _ _ _ _ _ heq := heq

section Template

variable {b : Binding World} {clock : Instant} {p : SitePlant World} {head : TubeId}
  {stages : List (SiteStage World)} {site : Site World}

/-- Where tubes were added, the template still comes to its result. -/
theorem Template.exists_settles (htemplate : Template (Site.likenessButDumps b clock) p head)
    (hlinked : Linked p.tubes head stages) (hline : Stage.Line stages (fun _ _ => True) (fun _ _ => True))
    {tubes : List (Tube (HandlerExchange World) (Site World))} (hgrown : p.tubes <+: tubes) {s : SiteStore World}
    (hcells : s.cells = p.store.cells) (halike : Site.Alike b clock true Eq p.world s.world) (packet : Packet) :
    ∃ s', Fiber.Settles (Plant.callbacks tubes) head packet s (p.run (.ofHead head) packet).1 s' ∧
      Site.Alike b clock true Eq (p.run (.ofHead head) packet).2.2.world s'.world := by
  obtain ⟨r, s', hsettles, -⟩ := hline.settles (hlinked.mono hgrown) (p := packet) (s := s) trivial
  have hrun : Fiber.run (Plant.callbacks tubes) (.ofHead head) packet s = (r, .ofHead head, s') :=
    Fiber.run_of_settles (f := .ofHead head) hsettles nofun
  obtain ⟨hresult, halike', -⟩ :=
    run_image (ρ := ⟨id, id⟩) htemplate.regular (htemplate.regular.image_self.mono hgrown) htemplate.room
      (fun c hc => hcells ▸ htemplate.room c hc) halike packet
  have hresult : (p.run (.ofHead head) packet).1 = r := hresult.trans (congrArg Prod.fst hrun)
  refine ⟨s', hresult ▸ hsettles, ?_⟩
  have hworld : (Fiber.run (Plant.callbacks tubes) (.ofHead head) packet s).2.2.world = s'.world := by rw [hrun]
  rw [← hworld]
  exact halike'

/-- An exchange that goes past a dump has the result that it has without. -/
theorem Template.run_dump (htemplate : Template (Site.likenessButDumps b clock) p head)
    (hlinked : Linked p.tubes head stages) (hline : Stage.Line stages (fun _ _ => True) (fun _ _ => True))
    (halike : Site.Alike b clock true Eq p.world site) (side : Side) {packet : Packet} (hpacket : packet.Streamless)
    (hresponse : ∀ q ∈ (p.run (.ofHead head) packet).1.toOption, q.Streamless) :
    let dumped := (p.add ⟨Dump.stage side, [head], []⟩).2.modifyWorld (fun _ => site)
    (dumped.run (.ofHead p.tubes.length) packet).1 = (p.run (.ofHead head) packet).1 ∧
      Site.Alike b clock true Eq (p.run (.ofHead head) packet).2.2.world
          (dumped.run (.ofHead p.tubes.length) packet).2.2.world := by
  intro dumped
  have htube : dumped.tubes[p.tubes.length]? = some ⟨Dump.stage side, [head], []⟩ := List.getElem?_concat_length
  have hrequest : (Plant.callbacks dumped.tubes).request p.tubes.length packet dumped.store =
      (.invoke head packet, (Dump.dump side false packet dumped.store).2) := by
    rw [Plant.request_eq htube]
    show ((⟨_, [head], []⟩ : Wiring).invokeNext (Dump.dump side false packet dumped.store).1, _) = _
    rw [Dump.packet_dump_of_streamless hpacket]
    rfl
  obtain ⟨s', hsettles, halike'⟩ := htemplate.exists_settles hlinked hline
    (show p.tubes <+: dumped.tubes from List.prefix_append _ _) (s := (Dump.dump side false packet dumped.store).2)
      rfl (halike.dump_eq _) packet
  generalize (p.run (.ofHead head) packet).1 = r at hresponse hsettles
  have hback : ∃ s'', (Plant.callbacks dumped.tubes).back p.tubes.length r s' = (.ofResult r, s'') ∧
      Site.Alike b clock true Eq (p.run (.ofHead head) packet).2.2.world s''.world := by
    rw [Plant.back_eq htube]
    cases r with
    | error e => exact ⟨s', rfl, halike'⟩
    | ok q =>
      refine ⟨(Dump.dump side true q s').2, ?_, halike'.dump_eq _⟩
      show (NextAction.ret (Dump.dump side true q s').1, _) = _
      rw [Dump.packet_dump_of_streamless (hresponse q rfl)]
      rfl
  obtain ⟨s'', hback, halike''⟩ := hback
  have hrun : Fiber.run (Plant.callbacks dumped.tubes) (.ofHead p.tubes.length) packet dumped.store =
      (r, .ofHead p.tubes.length, s'') :=
    Fiber.run_of_settles (f := .ofHead p.tubes.length) (.invokes hrequest hsettles hback (by cases r <;> rfl)) nofun
  rw [Plant.run, hrun]
  exact ⟨rfl, halike''⟩

end Template

namespace Server

/-! ### Servers with and without a dump -/

/-- The packet that the chain gives back for a request, if it comes to that. -/
def response? (s : Server World) (r : Arrival) : Option Packet :=
  if s.maxBodySize < r.body.length then none
  else match Codec.decode s.kind r.body r.contentType with
    | .error _ => none
    | .ok m => (s.pool.process (requestPacket m r.action) s.plant).1.toOption

/-- What the chains give back for requests that are handled one after another. -/
def responses (s : Server World) : List Arrival → List Packet
  | [] => []
  | r :: rs => (s.response? r).toList ++ (s.handle r.body r.contentType r.action).2.responses rs

variable {b : Binding World} {e : Endpoint World} {c : AssemblySettings} {clock : Instant} {world : World}

theorem serverLayers_dump (b : Binding World) (c : AssemblySettings) :
    serverLayers b { c with dump := true } = .stage (Dump.stage .server) ::
      serverLayers b { c with dump := false } := by
  unfold serverLayers
  split <;> rfl

theorem template_new_eq (b : Binding World) (e : Endpoint World) (c : AssemblySettings)
    (clock : Instant) (world : World) :
    Template (Site.likenessButDumps b clock) (new b e c clock world).plant (new b e c clock world).pool.pipeline.head :=
  Layer.template_build (fun h _ => h.respects_eq) b.kind plain_serverLayers
    ⟨Invoker.uniform (fun o _ => o.respects_eq), fun _ _ => rfl⟩ _

theorem new_dump (b : Binding World) (e : Endpoint World) (c : AssemblySettings) (clock : Instant) (world : World) :
    (new b e { c with dump := true } clock world).plant = ((new b e { c with dump := false } clock world).plant.add
        ⟨Dump.stage .server, [(new b e { c with dump := false } clock world).pool.pipeline.head], []⟩).2 ∧
      (new b e { c with dump := true } clock world).pool.pipeline.head =
        (new b e { c with dump := false } clock world).plant.tubes.length := by
  rw [new, serverChain, serverLayers_dump]
  exact ⟨rfl, rfl⟩

/-- A server with a dump beside one without, after the same requests. -/
structure Beside (b : Binding World) (e : Endpoint World) (c : AssemblySettings) (clock : Instant) (world : World)
    (s s' : Server World) :
    Prop where
  worn : Worn b clock (new b e { c with dump := false } clock world) s
  worn' : Worn b clock (new b e { c with dump := true } clock world) s'
  alike : Site.Alike b clock true Eq s.site s'.site

theorem beside_new (b : Binding World) (e : Endpoint World) (c : AssemblySettings) (clock : Instant) (world : World) :
    Beside b e c clock world (new b e { c with dump := false } clock world)
      (new b e { c with dump := true } clock world) where
  worn := worn_new b e _ clock world world
  worn' := worn_new b e _ clock world world
  alike := by
    rw [site_new, site_new]
    exact .refl_eq rfl rfl

variable {s s' : Server World}

/-- An exchange of a server is the exchange of the template that it was made with, on the site that the
server has now. -/
theorem Worn.process_eq {s₀ : Server World} (h : Worn b clock s₀ s)
    (htemplate : Template (Site.likenessButDumps b clock) s₀.plant s₀.pool.pipeline.head) (packet : Packet) :
    let q := (s₀.plant.modifyWorld (fun _ => s.site)).run (.ofHead s₀.pool.pipeline.head) packet
    (s.pool.process packet s.plant).1 = q.1 ∧
      Site.Alike b clock true Eq q.2.2.world (s.pool.process packet s.plant).2.2.world ∧
      Stocked s₀.plant s₀.pool.pipeline.head
        (s.pool.process packet s.plant).2.1 (s.pool.process packet s.plant).2.2 := by
  have hnow : Template (Site.likenessButDumps b clock) (s₀.plant.modifyWorld (fun _ => s.site))
      s₀.pool.pipeline.head :=
    htemplate.mono ⟨List.prefix_rfl, Nat.le_refl _⟩
  have hstocked : Stocked (s₀.plant.modifyWorld (fun _ => s.site)) s₀.pool.pipeline.head s.pool s.plant :=
    h.stocked.ofTubes rfl rfl
  obtain ⟨hresult, hstocked, halike⟩ := hstocked.process hnow (.refl_eq h.binding h.clock_eq) packet
  exact ⟨hresult, halike, hstocked.ofTubes rfl rfl⟩

theorem Beside.process (h : Beside b e c clock world s s') {packet : Packet} (hpacket : packet.Streamless)
    (hresponse : ∀ q ∈ (s.pool.process packet s.plant).1.toOption, q.Streamless) :
    (s'.pool.process packet s'.plant).1 = (s.pool.process packet s.plant).1 ∧
      Site.Alike b clock true Eq (s.pool.process packet s.plant).2.2.world
        (s'.pool.process packet s'.plant).2.2.world := by
  have htemplate := template_new_eq b e { c with dump := false } clock world
  obtain ⟨hresult, halike, -⟩ := h.worn.process_eq htemplate packet
  obtain ⟨hresult', halike', -⟩ :=
    h.worn'.process_eq (template_new_eq b e { c with dump := true } clock world) packet
  obtain ⟨hplant, hhead⟩ := new_dump b e c clock world
  rw [hhead, hplant] at hresult' halike'
  have hserving := (ready_new b e { c with dump := false } clock world).serving
  have hdump := Template.run_dump
    (p := (new b e { c with dump := false } clock world).plant.modifyWorld (fun _ => s.site))
    (htemplate.mono ⟨List.prefix_rfl, Nat.le_refl _⟩) hserving.template (line_brief b _ e) h.alike .server hpacket
    (by rw [← hresult]; exact hresponse)
  exact ⟨hresult'.trans (hdump.1.trans hresult.symm), halike.symm_eq.trans_eq (hdump.2.trans_eq halike')⟩

theorem Worn.handle_eq {s₀ : Server World} (h : Worn b clock s₀ s)
    (htemplate : Template (Site.likenessButDumps b clock) s₀.plant s₀.pool.pipeline.head) (r : Arrival) :
    Worn b clock s₀ (s.handle r.body r.contentType r.action).2 := by
  unfold Server.handle
  split
  · exact h
  · split
    · exact h
    · obtain ⟨-, halike, hstocked⟩ := h.process_eq htemplate (requestPacket _ r.action)
      exact ⟨h.kind, h.maxBodySize, hstocked, halike.binding_eq', halike.clock_eq'⟩

theorem Beside.handle (h : Beside b e c clock world s s') (r : Arrival)
    (hresponse : ∀ q ∈ s.response? r, q.Streamless) :
    (s'.handle r.body r.contentType r.action).1 = (s.handle r.body r.contentType r.action).1 ∧
      Beside b e c clock world (s.handle r.body r.contentType r.action).2
        (s'.handle r.body r.contentType r.action).2 := by
  have hworn := h.worn.handle_eq (template_new_eq b e { c with dump := false } clock world) r
  have hworn' := h.worn'.handle_eq (template_new_eq b e { c with dump := true } clock world) r
  suffices (s'.handle r.body r.contentType r.action).1 = (s.handle r.body r.contentType r.action).1 ∧
      Site.Alike b clock true Eq (s.handle r.body r.contentType r.action).2.site
        (s'.handle r.body r.contentType r.action).2.site from
    ⟨this.1, hworn, hworn', this.2⟩
  have hkind : s'.kind = s.kind := h.worn'.kind.trans h.worn.kind.symm
  have hsize : s'.maxBodySize = s.maxBodySize := h.worn'.maxBodySize.trans h.worn.maxBodySize.symm
  have hprocess := @h.process
  have halike := h.alike
  clear h hworn hworn'
  obtain ⟨plant, pool, kind, maxBodySize⟩ := s
  obtain ⟨plant', pool', kind', maxBodySize'⟩ := s'
  obtain rfl : kind' = kind := hkind
  obtain rfl : maxBodySize' = maxBodySize := hsize
  unfold Server.handle
  unfold response? at hresponse
  dsimp only at hresponse ⊢
  split
  · exact ⟨rfl, halike⟩
  · rename_i hroom
    rw [if_neg hroom] at hresponse
    cases hdecode : Codec.decode kind' r.body r.contentType with
    | error cause => exact ⟨rfl, halike⟩
    | ok m =>
      rw [hdecode] at hresponse
      have hpacket : (requestPacket m r.action).Streamless := by
        intro m' hm'
        cases hm'
        exact Codec.kept_decode hdecode
      obtain ⟨hresult, halike⟩ := hprocess hpacket hresponse
      dsimp only at hresult halike ⊢
      rw [hresult]
      exact ⟨rfl, halike⟩

theorem answers_cons (s : Server World) (r : Arrival) (rs : List Arrival) : s.answers (r :: rs) =
    (s.handle r.body r.contentType r.action).1 :: (s.handle r.body r.contentType r.action).2.answers rs := rfl

/-- A server with a dump gives the answers of one without. -/
theorem answers_dump (b : Binding World) (e : Endpoint World) (c : AssemblySettings) (clock : Instant) (world : World)
    (requests : List Arrival)
    (hresponses : ∀ p ∈ (new b e { c with dump := false } clock world).responses requests, p.Streamless) :
    (new b e { c with dump := true } clock world).answers requests =
      (new b e { c with dump := false } clock world).answers requests := by
  suffices ∀ s s', Beside b e c clock world s s' → (∀ p ∈ s.responses requests, p.Streamless) →
      s'.answers requests = s.answers requests from this _ _ (beside_new b e c clock world) hresponses
  clear hresponses
  induction requests with
  | nil => exact fun _ _ _ _ => rfl
  | cons r rs ih =>
    intro s s' h hresponses
    obtain ⟨hfirst, hrest⟩ := List.forall_mem_append.mp hresponses
    obtain ⟨hanswer, hbeside⟩ := h.handle r (fun q hq => hfirst q (Option.mem_toList.mpr hq))
    rw [answers_cons, answers_cons, hanswer, ih _ _ hbeside hrest]

/-- Where handlers and operations are functions of their arguments, the responses have no sources if
those of the template that the server was made with have none. -/
theorem streamless_responses (hb : ∀ h ∈ b.handlerConfig.chain, h.Functional)
    (he : ∀ o ∈ e.operations, o.Functional) {requests : List Arrival}
    (htold : ∀ r ∈ requests, ∀ m, Codec.decode b.kind r.body r.contentType = .ok m →
      ∀ q ∈ ((new b e c clock world).plant.run (.ofHead (new b e c clock world).pool.pipeline.head)
        (requestPacket m r.action)).1.toOption, q.Streamless) :
    ∀ p ∈ (new b e c clock world).responses requests, p.Streamless := by
  have htemplate : Template (likeness b clock) (new b e c clock world).plant
      (new b e c clock world).pool.pipeline.head :=
    template_new hb he world
  have hnew := worn_new b e c clock world world
  suffices ∀ s, Worn b clock (new b e c clock world) s →
    ∀ p ∈ s.responses requests, p.Streamless from this _ hnew
  induction requests with
  | nil => exact fun _ _ => List.forall_mem_nil _
  | cons r rs ih =>
    intro s hs
    obtain ⟨hfirst, hrest⟩ := List.forall_mem_cons.mp htold
    refine List.forall_mem_append.mpr ⟨fun p hp => ?_,
      ih hrest _ (hs.handle htemplate hnew r.body r.contentType r.action).2⟩
    rw [Option.mem_toList, response?] at hp
    split_ifs at hp
    cases hdecode : Codec.decode s.kind r.body r.contentType with
    | error cause =>
      rw [hdecode] at hp
      cases hp
    | ok m =>
      rw [hdecode] at hp
      rw [hs.kind] at hdecode
      refine hfirst m hdecode p ?_
      rwa [← (hs.stocked.process htemplate
        ⟨hnew.binding, hs.binding, hnew.clock_eq, hs.clock_eq, nofun, trivial⟩ (requestPacket m r.action)).1]

end Server

/-- Dumps in front of tubes change nothing that the other tubes see of an exchange, and not its result,
as long as no message in it has a source for a payload: whatever the tubes do, and whether or not the
exchange ends. In particular a server with a dump gives the answers of one without. -/
theorem Dump.transparent :
    (∀ {World : Type} (cb : Callbacks World) (places : TubeId → List Side) (head : TubeId) (p : Packet)
        (s : SiteStore World),
      (∀ n, ∀ v ∈ Fiber.course cb n (.ofHead head) (.request head p) s.world.world, v.Streamless) →
      (∀ n, ∃ n', Agrees cb places n n' (.ofHead head) (.ofHead (entry places head)) (.request head p)
        (.request (entry places head) p) s) ∧
      Option.Rel (fun out out' => out'.1 = out.1 ∧ out'.2.2.world.world = out.2.2)
        (Fiber.drive cb (.ofHead head) (.request head p) s.world.world)
        (Fiber.drive (among cb places) (.ofHead (entry places head)) (.request (entry places head) p) s) ∧
      let q := Fiber.run cb (.ofHead head) p s.world.world
      let r := Fiber.run (among cb places) (.ofHead (entry places head)) p s
      r.1 = q.1 ∧ r.2.2.world.world = q.2.2) ∧
    (∀ {World : Type} (b : Binding World) (e : Endpoint World) (c : AssemblySettings) (clock : Instant)
        (world : World) (requests : List Server.Arrival),
      (∀ p ∈ (Server.new b e { c with dump := false } clock world).responses requests, p.Streamless) →
      (Server.new b e { c with dump := true } clock world).answers requests =
        (Server.new b e { c with dump := false } clock world).answers requests) :=
  ⟨fun _ _ _ _ _ hcourse => ⟨exists_agrees_begin _ hcourse, drive_among _ hcourse, run_among _ hcourse⟩,
    Server.answers_dump⟩

namespace Dump

/-- Two tubes. The first one runs the second twice, and the world counts the callbacks. -/
def twice : Callbacks Nat where
  request tube p calls := (if tube = 0 then .invoke 1 p else .ret p, calls + 1)
  response _ p calls := (if calls < 3 then .invoke 1 p else .ret p, calls + 1)
  exception _ e calls := (.throw e, calls + 1)

def twicePlaces : TubeId → List Side := fun n => if n = 0 then [.client] else [.server, .client]

theorem streamless_twice (n : Nat) (calls : Nat) :
    ∀ v ∈ Fiber.course twice n (.ofHead 0) (.request 0 .empty) calls, v.Streamless := by
  refine Fiber.streamless_course (fun tube handed s hhanded => ?_) n (fun p hp m hm => ?_)
  · have hpacket : ∀ p ∈ (twice.call tube handed s).1.packet?, p ∈ handed.packet? := by
      intro p hp
      cases handed with
      | request q =>
        simp only [Callbacks.call, twice] at hp
        split at hp <;> exact hp
      | response q =>
        simp only [Callbacks.call, twice] at hp
        split at hp <;> exact hp
      | exception e => cases hp
    exact fun p hp => hhanded p (hpacket p hp)
  · cases hp
    cases hm

def twiceStore : SiteStore Nat := ⟨[], .new ⟨.soap11, [], ⟨none, [], []⟩⟩ ⟨0, 0⟩ 0⟩

def countingBinding : Binding Nat := ⟨.soap11, [], ⟨some .v11, [Server.countingHandler], []⟩⟩

theorem streamless_countingResponses :
    ∀ p ∈ (Server.new countingBinding Server.countingEndpoint {} ⟨0, 0⟩ 0).responses
      Server.noteRequests, p.Streamless := by
  let server := Server.new countingBinding Server.countingEndpoint {} ⟨0, 0⟩ 0
  let steps (p : Packet) := Fiber.advance (Plant.callbacks server.plant.tubes) 20 (.ofHead server.pool.pipeline.head)
    (.request server.pool.pipeline.head p) server.plant.store
  have htold : ∀ r ∈ Server.noteRequests, ∀ m ∈ (Codec.decode .soap11 r.body r.contentType).toOption,
      (steps (Server.requestPacket m r.action)).isSome = true ∧
        ∀ out ∈ steps (Server.requestPacket m r.action), ∀ q ∈ out.1.toOption, q.Streamless := by
    decide +kernel
  refine Server.streamless_responses Server.functional_countingHandler Server.functional_countingEndpoint
    fun r hr m hm q hq => ?_
  obtain ⟨hended, hstreamless⟩ := htold r hr m (congrArg Except.toOption hm)
  have hopen : (Fiber.ofHead server.pool.pipeline.head).state ≠ .closed := nofun
  exact hstreamless _ (Fiber.advance_eq_run hended hopen) q hq

theorem transparent_twice :
    (∀ n, ∀ v ∈ Fiber.course twice n (.ofHead 0) (.request 0 .empty) 0, v.Streamless) ∧
    (∃ n', Agrees twice twicePlaces 6 n' (.ofHead 0) (.ofHead (entry twicePlaces 0)) (.request 0 .empty)
      (.request (entry twicePlaces 0) .empty) twiceStore) ∧
    (Fiber.run (among twice twicePlaces) (.ofHead (entry twicePlaces 0)) .empty twiceStore).1 =
      (Fiber.run twice (.ofHead 0) .empty 0).1 ∧
    (Server.new countingBinding Server.countingEndpoint { dump := true } ⟨0, 0⟩ 0).answers Server.noteRequests =
      (Server.new countingBinding Server.countingEndpoint {} ⟨0, 0⟩ 0).answers Server.noteRequests := by
  obtain ⟨hagrees, -, hrun⟩ := transparent.1 twice twicePlaces 0 .empty twiceStore (fun n => streamless_twice n 0)
  exact ⟨fun n => streamless_twice n 0, hagrees 6, hrun.1,
    transparent.2 countingBinding Server.countingEndpoint {} ⟨0, 0⟩ 0 _ streamless_countingResponses⟩

end Dump

end SoapNode
