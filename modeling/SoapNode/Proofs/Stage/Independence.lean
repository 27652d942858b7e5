import SoapNode.Proofs.Stage.BuiltIn
import SoapNode.Proofs.Stage.Turns

/-!
# Independent copies

The copy of an acyclic template shares nothing with it but shareable tubes. For chains of handlers and the
built-in stages it follows that exchanges on distinct chains of one template do not disturb each other, in
whatever order their callbacks run. Where a handler remembers earlier calls they do: it is one object for
all copies.
-/

namespace SoapNode

variable {World : Type}

theorem Layer.BuiltIn.plain {b : Binding World} {clock : Instant} {R : World → World → Prop}
    {l : Layer World} (h : l.BuiltIn) : l.Plain (Site.likeness b clock true R) := by
  cases h with
  | handlers side => exact .handlers side
  | dump side => exact .stage ⟨Dump.uniform side, fun _ _ => rfl⟩ rfl
  | mustUnderstand side understood => exact .stage ⟨MustUnderstand.uniform side understood, fun _ _ => rfl⟩ rfl
  | security side version c => exact .stage ⟨Security.uniform side version c, fun _ _ => rfl⟩ rfl
  | addressing side v required =>
    cases side with
    | client => exact .stage ⟨Addressing.uniform_client v required, fun _ _ => rfl⟩ rfl
    | server => exact .stage ⟨Addressing.uniform_server v required, fun _ _ => rfl⟩ rfl

/-- The operation in a world with a record, which it leaves alone. -/
def Operation.besideRecord (o : Operation World) : Operation (World × List Event) where
  name := o.name
  request := o.request
  action := o.action
  oneWay := o.oneWay
  run input w :=
    let (output, world) := o.run input w.1
    (output, world, w.2)

def Endpoint.besideRecord (e : Endpoint World) : Endpoint (World × List Event) :=
  ⟨e.kind, e.operations.map (·.besideRecord), e.dispatcher⟩

def Transport.besideRecord (t : Transport World) : Transport (World × List Event) :=
  t.within Prod.fst (fun world w => (world, w.2))

/-- The last stage of a client or of a server. -/
inductive Stage.Last : SiteStage (World × List Event) → Prop where
  | transport (kind : BindingKind) {t : Transport World} (functional : t.Functional) :
    Last (Transport.stage kind t.besideRecord)
  | invoker {e : Endpoint World} (functional : ∀ o ∈ e.operations, o.Functional) :
    Last (Invoker.stage e.besideRecord)

theorem Stage.Last.plain {b : Binding (World × List Event)} {clock : Instant} {last : SiteStage (World × List Event)}
    (h : Stage.Last last) : last.Plain (Exchange.likeness b clock) := by
  cases h with
  | @transport kind t functional =>
    refine ⟨Transport.uniform kind fun request action oneWay u v hrecord => ⟨?_, hrecord⟩, fun _ _ => rfl⟩
    exact (functional request action oneWay u.1 v.1 trivial).1
  | @invoker e functional =>
    refine ⟨Invoker.uniform fun o' ho' => ?_, fun _ _ => rfl⟩
    obtain ⟨o, ho, rfl⟩ := List.mem_map.mp ho'
    intro input u v hrecord
    exact ⟨(functional o ho input u.1 v.1 trivial).1, hrecord⟩

/-- What a recorded handler writes does not depend on what its world is. -/
theorem Handler.Functional.respects_recorded {n : Numbered World} (h : n.1.Functional) :
    n.recorded.Respects Tracked where
  onMessage ctx p u v hrecord := by
    obtain ⟨hresult, hpacket, -⟩ := h.onMessage ctx p u.1 v.1 trivial
    exact ⟨hresult, hpacket, congrArg (· ++ [n.event .message ctx.direction]) hrecord⟩
  onFault ctx p u v hrecord := by
    obtain ⟨hresult, hpacket, -⟩ := h.onFault ctx p u.1 v.1 trivial
    exact ⟨hresult, hpacket, congrArg (· ++ [n.event .fault ctx.direction]) hrecord⟩
  onClose ctx p u v hrecord :=
    ⟨(h.onClose ctx p u.1 v.1 trivial).1, congrArg (· ++ [n.event .close ctx.direction]) hrecord⟩

theorem respects_recordAll {hs : List (Handler World)} (h : ∀ g ∈ hs, g.Functional) :
    ∀ g ∈ recordAll hs, g.Respects Tracked := by
  intro g hg
  obtain ⟨n, hn, rfl⟩ := List.mem_map.mp hg
  exact (h n.1 (List.fst_mem_of_mem_zipIdx hn)).respects_recorded

/-- A chain of layers on a site. -/
def Layer.chain (kind : BindingKind) (layers : List (Layer World)) (last : SiteStage World) (site : Site World) :
    TubeId × SitePlant World :=
  build kind layers last (.empty site)

section

variable {kind : BindingKind} {layers : List (Layer (World × List Event))} {last : SiteStage (World × List Event)}
  {hs : List (Handler World)} {site site' : Site (World × List Event)}

theorem Layer.chain_site : chain kind layers last site' =
    ((chain kind layers last site).1, (chain kind layers last site).2.modifyWorld (fun _ => site')) :=
  build_modifyWorld kind layers last (.empty site) (fun _ => site')

theorem Layer.world_chain : (chain kind layers last site).2.world = site := by
  rw [@chain_site _ kind layers last site site]
  rfl

theorem Layer.serves_chain (hbinding : site'.binding = site.binding) (hclock : site'.clock = site.clock) :
    Plant.Serves site.binding site.clock (chain kind layers last site).2 (chain kind layers last site').2 := by
  refine ⟨?_, by rw [world_chain, hbinding], by rw [world_chain, hclock]⟩
  rw [@chain_site _ kind layers last site site']
  exact ⟨List.prefix_rfl, Nat.le_refl _⟩

theorem Layer.template_chain (hhs : ∀ g ∈ hs, g.Functional)
    (hchain : site.binding.handlerConfig.chain = recordAll hs) (hlayers : ∀ l ∈ layers, l.BuiltIn)
    (hlast : Stage.Last last) :
    Template (Exchange.likeness site.binding site.clock) (chain kind layers last site).2
      (chain kind layers last site).1 :=
  template_build (by rw [hchain]; exact respects_recordAll hhs) kind (fun l hl => (hlayers l hl).plain) hlast.plain _

/-- An exchange among others has the result and makes the calls that it has and makes alone. -/
theorem Hall.eq_alone (hhs : ∀ g ∈ hs, g.Functional) (hchain : site.binding.handlerConfig.chain = recordAll hs)
    (hlayers : ∀ l ∈ layers, l.BuiltIn) (hlast : Stage.Last last) (hbinding : site'.binding = site.binding)
    (hclock : site'.clock = site.clock) (turns : List Turn) :
    ∀ x ∈ ((Hall.ofTemplate (Layer.chain kind layers last site)).run turns).exchanges,
      let y := Exchange.alone (Layer.chain kind layers last site') x.packet x.firstId x.turns
      y.result? = x.result? ∧ y.calls = x.calls := by
  intro x hx
  have htemplate := @Layer.template_chain _ kind _ _ _ _ hhs hchain hlayers hlast
  have hserves := @Layer.serves_chain _ kind layers last site site rfl rfl
  have hfresh := @Layer.serves_chain _ kind layers last _ _ hbinding hclock
  have hsound := (Hall.Sound.ofTemplate hserves).run hserves htemplate turns
  rw [@Layer.chain_site _ kind layers last site site'] at hfresh ⊢
  exact (hsound.kept.follows x hx).alone htemplate hserves hfresh

end

/-- The copies of a template are renamings of it that share with it nothing but shareable tubes. Exchanges on distinct
copies take the course that each of them takes alone, in whatever order their callbacks run. -/
theorem Hall.copies_independent :
    (∀ {Cell World : Type} [Inhabited Cell] {p : Plant Cell World} {head : TubeId}, Acyclic p.tubes head →
      (∀ id t, Owns p.tubes head id t → ∀ w s, (t.stage.copied w s).cells = s.cells) →
      ∃ ρ, p.Copied (p.copyChain head).2 head (p.copyChain head).1 ρ) ∧
    (∀ {World : Type} {kind : BindingKind} {layers : List (Layer (World × List Event))}
        {last : SiteStage (World × List Event)} (hs : List (Handler World)) (site site' : Site (World × List Event)),
      (∀ g ∈ hs, g.Functional) → site.binding.handlerConfig.chain = recordAll hs →
        (∀ l ∈ layers, l.BuiltIn) →
      Stage.Last last → site'.binding = site.binding → site'.clock = site.clock →
      ∀ turns, ∀ x ∈ ((Hall.ofTemplate (Layer.chain kind layers last site)).run turns).exchanges,
        let fresh := Layer.chain kind layers last site'
        let y := Exchange.alone fresh x.packet x.firstId x.turns
        (y.result? = x.result? ∧ y.calls = x.calls) ∧
          ∀ r, x.result? = some r → site'.issued = x.firstId → site'.world.2 = [] →
            ((Pipeline.ofHead fresh.1).process x.packet fresh.2).1 = r ∧
              ((Pipeline.ofHead fresh.1).process x.packet fresh.2).2.world.world.2 = x.calls) := by
  refine ⟨Plant.copied_copyChain, ?_⟩
  intro World kind layers last hs site site' hhs hchain hlayers hlast hbinding hclock turns x hx
  obtain ⟨hresult, hcalls⟩ := Hall.eq_alone hhs hchain hlayers hlast hbinding hclock turns x hx
  refine ⟨⟨hresult, hcalls⟩, fun r hr hissued hrecord => ?_⟩
  have htemplate := @Layer.template_chain _ kind _ _ _ _ hhs (hbinding ▸ hchain) hlayers hlast
  obtain ⟨ρ, -, -, hcopy, -⟩ := htemplate.fork (.refl _)
  rw [← hcalls]
  refine Exchange.process_of_alone hcopy ?_ ?_ (hresult.trans hr)
  · rw [Layer.world_chain, hissued]
  · rw [Layer.world_chain, hrecord]

/-- A head over two tubes that lead to a last one. All of them hold one cell; copies have the last tube in common. -/
def diamond : Plant Nat Unit where
  tubes :=
    [⟨{ Stage.passing "last" with shareable := true }, [], [0]⟩, ⟨.passing "left", [0], [0]⟩,
      ⟨.passing "right", [0], [0]⟩, ⟨.passing "head", [1, 2], [0]⟩]
  store := ⟨[7], ()⟩

theorem diamond_acyclic : Acyclic diamond.tubes 3 := by
  refine .of_earlier (by decide) fun id _ n hn => ?_
  obtain ⟨t, ht, -, hmem⟩ := hn
  rcases id with _ | _ | _ | _ | id
  · obtain rfl := Option.some.inj ht
    cases hmem
  · obtain rfl := Option.some.inj ht
    rw [List.mem_singleton.mp hmem]
    decide
  · obtain rfl := Option.some.inj ht
    rw [List.mem_singleton.mp hmem]
    decide
  · obtain rfl := Option.some.inj ht
    revert n
    decide
  · cases ht

theorem diamond_copied (id : TubeId) (t : Tube Nat Unit) (howns : Owns diamond.tubes 3 id t) (w : Wiring)
    (s : Store Nat Unit) : (t.stage.copied w s).cells = s.cells := by
  have hmem := List.mem_of_getElem? howns.tube
  simp only [diamond, List.mem_cons, List.not_mem_nil, or_false] at hmem
  rcases hmem with rfl | rfl | rfl | rfl <;> rfl

/-- A handler that counts the messages it lets through. -/
def tallyHandler (kind : HandlerKind) : Handler Nat :=
  { Handler.passing kind [] with onMessage := fun _ p n => (.ok true, p, n + 1) }

/-- A transport that counts what it sends and gets no replies. -/
def silentTransport : Transport Nat := fun _ _ _ n => (.ok none, n + 1)

/-- The site of a client with these handlers, after so many ids. -/
def recordedSite (handlers : List (Handler Nat)) (issued world : Nat) : Site (Nat × List Event) :=
  ⟨⟨.soap11, [], ⟨some .v11, recordAll handlers, []⟩⟩, ⟨0, 0⟩, issued, [], (world, [])⟩

def addressedLayers : List (Layer (Nat × List Event)) :=
  [.handlers .client, .stage (MustUnderstand.stage .client []), .stage (Addressing.stage .client .v11 false),
    .stage (Dump.stage .client)]

def addressedChain (handlers : List (Handler Nat)) (issued world : Nat) : TubeId × SitePlant (Nat × List Event) :=
  Layer.chain .soap11 addressedLayers (Transport.stage .soap11 silentTransport.besideRecord)
    (recordedSite handlers issued world)

/-- Two exchanges that take turns, and a third one on the chain that the second one brought back. -/
def threeInTurns : List Turn :=
  [.fork (.ofMessage? (some (.empty (some .v11)))) 3, .take .empty 5] ++
    (List.replicate 12 [.step 0, .step 1]).flatten ++
    [.recycle 0, .take (.ofMessage? (some (.empty (some .v11)))) 7] ++ List.replicate 12 (.step 0)

def interleavedHall : Hall Nat :=
  (Hall.ofTemplate (addressedChain [tallyHandler .logical, tallyHandler .soap] 0 0)).run threeInTurns

theorem interleavedHall_exchanges :
    interleavedHall.exchanges.map (fun x => (x.firstId, x.turns, x.calls.length, x.result?.map Except.isOk)) =
      [(7, 12, 4, some true), (3, 12, 4, some true)] := by
  decide +kernel

theorem tallyHandler_functional (kind : HandlerKind) : (tallyHandler kind).Functional where
  onMessage _ _ _ _ _ := ⟨rfl, rfl, trivial⟩
  onFault _ _ _ _ _ := ⟨rfl, rfl, trivial⟩
  onClose _ _ _ _ _ := ⟨rfl, trivial⟩

theorem addressedLayers_builtIn : ∀ l ∈ addressedLayers, l.BuiltIn := by
  intro l hl
  simp only [addressedLayers, List.mem_cons, List.not_mem_nil, or_false] at hl
  rcases hl with rfl | rfl | rfl | rfl
  · exact .handlers _
  · exact .mustUnderstand _ _
  · exact .addressing _ _ _
  · exact .dump _

theorem Hall.copies_independent_interleaved :
    (∃ ρ, diamond.Copied (diamond.copyChain 3).2 3 (diamond.copyChain 3).1 ρ) ∧
      interleavedHall.exchanges.length = 2 ∧
      ∀ x ∈ interleavedHall.exchanges,
        let fresh := addressedChain [tallyHandler .logical, tallyHandler .soap] 7 40
        let y := Exchange.alone fresh x.packet x.firstId x.turns
        (y.result? = x.result? ∧ y.calls = x.calls) ∧ ∀ r, x.result? = some r → x.firstId = 7 →
          ((Pipeline.ofHead fresh.1).process x.packet fresh.2).1 = r ∧
            ((Pipeline.ofHead fresh.1).process x.packet fresh.2).2.world.world.2 = x.calls := by
  have hfunctional : ∀ g ∈ [tallyHandler .logical, tallyHandler .soap], g.Functional :=
    List.forall_mem_cons.mpr ⟨tallyHandler_functional .logical,
      List.forall_mem_singleton.mpr (tallyHandler_functional .soap)⟩
  have htwo : interleavedHall.exchanges.length = 2 := by
    rw [← List.length_map, interleavedHall_exchanges]
    rfl
  refine ⟨Hall.copies_independent.1 diamond_acyclic diamond_copied, htwo, fun x hx => ?_⟩
  unfold interleavedHall addressedChain at hx
  unfold addressedChain
  obtain ⟨halone, hprocess⟩ := Hall.copies_independent.2 [tallyHandler .logical, tallyHandler .soap]
    (recordedSite [tallyHandler .logical, tallyHandler .soap] 0 0)
      (recordedSite [tallyHandler .logical, tallyHandler .soap] 7 40)
    hfunctional rfl addressedLayers_builtIn (.transport .soap11 (fun _ _ _ _ _ _ => ⟨rfl, trivial⟩)) rfl
      rfl threeInTurns x hx
  exact ⟨halone, fun r hr hfirst => hprocess r hr hfirst.symm rfl⟩

/-- Two tubes that hold a cell in common. -/
def Plant.Share {Cell World : Type} (p : Plant Cell World) (id id' : TubeId) : Prop :=
  ∃ t t' c, p.tubes[id]? = some t ∧ p.tubes[id']? = some t' ∧ c ∈ t.cells ∧ c ∈ t'.cells

/-- A handler that lets nothing through but the first message. -/
def onceHandler : Handler Nat :=
  { Handler.passing .logical [] with onMessage := fun _ p n => (.ok (n = 0), p, n + 1) }

/-- One exchange on a fresh copy, and then another one. -/
def twoInTurn : List Turn :=
  [.fork .empty 0] ++ List.replicate 12 (.step 0) ++ [.fork .empty 0] ++ List.replicate 12 (.step 0)

/-- A shareable tube of a template keeps its cells, which the copies of other tubes do not. And what a handler remembers
from one exchange can turn the next one around. -/
theorem Hall.copies_share_handlers :
    (diamond.Share 3 0 ∧ (diamond.copyChain 3).1 = 6 ∧ (diamond.copyChain 3).2.chain 6 = [6, 4, 0] ∧
        ¬ (diamond.copyChain 3).2.Share 6 0) ∧
      let hall := (Hall.ofTemplate (addressedChain [onceHandler] 0 0)).run twoInTurn
      hall.exchanges.map (fun x => x.result?.map Except.isOk) = [some true, some false] ∧
        hall.exchanges.map (fun x =>
            (Exchange.alone (addressedChain [onceHandler] 0 0) x.packet x.firstId 12).result?.map Except.isOk) =
          [some false, some false] := by
  refine ⟨⟨⟨_, _, 0, rfl, rfl, by decide, by decide⟩, by decide, by decide, ?_⟩,
    by decide +kernel, by decide +kernel⟩
  rintro ⟨t, t', c, ht, ht', hc, hc'⟩
  obtain rfl := Option.some.inj ht
  obtain rfl := Option.some.inj ht'
  have hone : c = 1 := List.mem_singleton.mp hc
  have hzero : c = 0 := List.mem_singleton.mp hc'
  rw [hone] at hzero
  cases hzero

end SoapNode
