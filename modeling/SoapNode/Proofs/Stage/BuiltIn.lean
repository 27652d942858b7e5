import SoapNode.Proofs.Stage.Blocks

/-!
# Chains of the layers there are

The layers that chains are made of have stages without cells of their own that leave a quiet site quiet. A
pool of such chains keeps serving, whatever is sent through it.
-/

namespace SoapNode

open Assembly

variable {World : Type}

/-- The layers that chains are made of. -/
inductive Layer.BuiltIn : Layer World → Prop where
  | handlers (side : Side) : BuiltIn (.handlers side)
  | dump (side : Side) : BuiltIn (.stage (Dump.stage side))
  | mustUnderstand (side : Side) (understood : List QName) : BuiltIn (.stage (MustUnderstand.stage side understood))
  | security (side : Side) (version : Option SoapVersion) (c : SecuritySettings) :
    BuiltIn (.stage (Security.stage side version c))
  | addressing (side : Side) (v : SoapVersion) (required : Bool) : BuiltIn (.stage (Addressing.stage side v required))

namespace Layer

variable {side : Side} {l : Layer World} {kind : BindingKind} {b : Binding World} {c : AssemblySettings}

theorem mem_stages_handlers {st : SiteStage World} (hst : st ∈ (Layer.handlers side).stages kind) :
    ∃ h : HandlerStage, st = h.stage := by
  cases kind with
  | xmlHttp => exact ⟨_, List.mem_singleton.mp hst⟩
  | soap11 | soap12 =>
    rcases List.mem_cons.mp hst with rfl | hst
    · exact ⟨_, rfl⟩
    · exact ⟨_, List.mem_singleton.mp hst⟩

theorem BuiltIn.copied (h : l.BuiltIn) : ∀ st ∈ l.stages kind, ∀ w s, st.copied w s = s := by
  intro st hst w s
  cases h with
  | handlers side =>
    obtain ⟨h, rfl⟩ := mem_stages_handlers hst
    rfl
  | mustUnderstand side understood =>
    rw [List.mem_singleton.mp hst]
    rfl
  | addressing side v required =>
    rw [List.mem_singleton.mp hst]
    cases side <;> rfl
  | dump side =>
    rw [List.mem_singleton.mp hst]
    rfl
  | security side version c =>
    rw [List.mem_singleton.mp hst]
    rfl

theorem BuiltIn.keeps (h : l.BuiltIn) (hchain : b.handlerConfig.chain = []) (J : World → Prop) :
    ∀ st ∈ l.stages kind, st.Keeps (Quiet b (fun _ w => J w)) := by
  intro st hst
  cases h with
  | handlers side =>
    obtain ⟨h, rfl⟩ := mem_stages_handlers hst
    exact HandlerStage.keeps_quiet hchain
  | mustUnderstand side understood =>
    rw [List.mem_singleton.mp hst]
    exact MustUnderstand.keeps_quiet
  | addressing side v required =>
    rw [List.mem_singleton.mp hst]
    exact Addressing.keeps_quiet side required
  | dump side =>
    rw [List.mem_singleton.mp hst]
    exact Dump.keeps_quiet
  | security side version c =>
    rw [List.mem_singleton.mp hst]
    exact Security.keeps_quiet

theorem builtIn_client : ∀ l ∈ clientLayers b c, l.BuiltIn := by
  intro l hl
  cases hversion : b.version? with
  | none =>
    simp only [clientLayers, hversion, dumpLayer, List.mem_cons, List.mem_ite_nil_right,
      List.not_mem_nil, or_false] at hl
    rcases hl with rfl | ⟨-, rfl⟩
    · exact .handlers .client
    · exact .dump .client
  | some v =>
    simp only [clientLayers, hversion, dumpLayer, addressingLayer, securityLayer, mustUnderstandLayer,
      List.cons_append, List.mem_cons, List.mem_append, List.mem_ite_nil_right, List.not_mem_nil, or_false] at hl
    rcases hl with rfl | rfl | (⟨-, rfl⟩ | ⟨-, rfl⟩) | ⟨-, rfl⟩
    · exact .handlers .client
    · exact .mustUnderstand .client _
    · exact .addressing .client v false
    · exact .dump .client
    · exact .security .client _ _

theorem builtIn_server : ∀ l ∈ serverLayers b c, l.BuiltIn := by
  intro l hl
  cases hversion : b.version? with
  | none =>
    simp only [serverLayers, hversion, dumpLayer, List.mem_append, List.mem_cons,
      List.mem_ite_nil_right, List.not_mem_nil, or_false] at hl
    rcases hl with ⟨-, rfl⟩ | rfl
    · exact .dump .server
    · exact .handlers .server
  | some v =>
    simp only [serverLayers, hversion, dumpLayer, addressingLayer, securityLayer, mustUnderstandLayer,
      List.mem_cons, List.mem_append, List.mem_ite_nil_right, List.not_mem_nil, or_false] at hl
    rcases hl with ((⟨-, rfl⟩ | ⟨-, rfl⟩) | ⟨-, rfl⟩) | rfl | rfl
    · exact .dump .server
    · exact .security .server _ _
    · exact .addressing .server v c.requireAddressing
    · exact .mustUnderstand .server _
    · exact .handlers .server

end Layer

/-- An exchange on a quiet site is a run on a chain of the pool's stages, and leaves the site quiet. -/
theorem TubePool.Serving.process_quiet {stages : List (SiteStage World)} {pool : TubePool} {p : SitePlant World}
    (h : TubePool.Serving stages pool p) (hcopied : ∀ st ∈ stages, ∀ w s, st.copied w s = s) {b : Binding World}
    {J : World → Prop} (hkeeps : ∀ st ∈ stages, st.Keeps (Quiet b (fun _ w => J w)))
    (hquiet : Quiet b (fun _ w => J w) p.store) (packet : Packet) :
    ∃ (head : TubeId) (p' : SitePlant World) (pool' : TubePool), Linked p'.tubes head stages ∧
      Quiet b (fun n w => n = p.store.world.issued ∧ w = p.store.world.world) p'.store ∧
      pool.process packet p = ((p'.run (.ofHead head) packet).1, pool', (p'.run (.ofHead head) packet).2.2) ∧
      TubePool.Serving stages pool' (p'.run (.ofHead head) packet).2.2 ∧
      Quiet b (fun _ w => J w) (p'.run (.ofHead head) packet).2.2.store := by
  obtain ⟨head, p', pool', hlinked, hgrows, hstaged, hprocess, hserving⟩ := h.process hcopied packet
  have hbefore : Quiet b (fun n w => n = p.store.world.issued ∧ w = p.store.world.world) p.store :=
    ⟨hquiet.binding_eq, hquiet.idle, rfl, rfl⟩
  have hkept : ∀ t ∈ p'.tubes, t.stage.Keeps (Quiet b (fun _ w => J w)) := fun t ht => hkeeps t.stage (hstaged t ht)
  exact ⟨head, p', pool', hlinked, hbefore.grow hgrows, hprocess, hserving,
    Fiber.run_keeps hkept (.ofHead head) packet (hquiet.grow hgrows)⟩

theorem Layer.build_new (kind : BindingKind) (layers : List (Layer World)) (last : SiteStage World) (b : Binding World)
    (clock : Instant) {world : World} {J : World → Prop} (hworld : J world) :
    let r := Layer.build kind layers last (.empty (.new b clock world))
    TubePool.Serving (layers.flatMap (Layer.stages kind) ++ [last]) (.ofHead r.1) r.2 ∧
      Quiet b (fun _ w => J w) r.2.store := by
  obtain ⟨hlinked, hgrows⟩ := Layer.build_linked kind layers last (.empty (Site.new b clock world))
  have hempty : Quiet b (fun _ w => J w) (Plant.empty (Site.new b clock world) : SitePlant World).store :=
    ⟨rfl, fun x hx => absurd hx List.not_mem_nil, hworld⟩
  refine ⟨⟨rfl, hlinked, nofun, ?_⟩, hempty.grow hgrows⟩
  intro t ht
  rcases hgrows.staged t ht with ht | ht
  · cases ht
  · exact ht

end SoapNode
