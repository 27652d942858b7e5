import SoapNode.Proofs.Server

/-!
# The transport to a server

What a client sends to a server, and what it receives of the answer. A written request is delivered to
its operation, a written answer to the client; both arrive as `Element.delivered` says.
-/

namespace SoapNode

variable {World : Type}

namespace Transport

theorem keeps_quiet {b : Binding World} {t : Transport World} {J : World → Prop}
    (ht : ∀ request action oneWay w, J w → J (t request action oneWay w).2) (kind : BindingKind) :
    (stage kind t).Keeps (Quiet b (fun _ w => J w)) where
  request w p s hs := by
    refine ⟨hs.binding_eq, hs.idle, ?_⟩
    show J (exchange kind t p s.world.world).2
    unfold exchange
    split
    · exact hs.condition
    · split
      · exact hs.condition
      · exact ht _ _ _ _ hs.condition
  response _ _ _ hs := hs
  exception _ _ _ hs := hs

theorem answers_quiet {b : Binding World} {t : Transport World} {kind : BindingKind} {p : Packet} {world world' : World}
    {response : Except RuntimeError Packet} (hexchange : exchange kind t p world = (response, world')) {good : Prop}
    {B : Packet → Prop} (hgood : good → ∃ p', response = .ok p' ∧ B p') (w : Wiring) (q : Packet)
    (s : SiteStore World) (hq : Quiet.With b (· = p) (fun _ v => v = world) q s) :
    ∃ action r s', (stage kind t).request w q s = (action, s') ∧ action.result? = some r ∧
      Quiet.Gives b good B (fun _ v => v = world') r s' := by
  obtain ⟨rfl, hs⟩ := hq
  have hworld : s.world.world = world := hs.condition
  have hquiet : Quiet b (fun _ v => v = world') { s with world := { s.world with world := world' } } :=
    ⟨hs.binding_eq, hs.idle, rfl⟩
  cases response with
  | ok p =>
    refine ⟨.ret p, _, _, ?_, rfl, hquiet, hgood⟩
    simp only [stage, hworld, hexchange]
  | error e =>
    refine ⟨.throw e, _, _, ?_, rfl, hquiet, hgood⟩
    simp only [stage, hworld, hexchange]

theorem receive_sent {kind : BindingKind} {response : Packet} {answer : Option (Option Element)}
    (h : response.Sends kind.version? answer) (hwritable : ∀ payload ∈ answer, ∀ e ∈ payload, e.Writable)
    (p : Packet) (sent : String) :
    ∃ p', (Server.replyTo kind response).bind (receive kind p sent) = .ok p' ∧
      p'.Bears kind.version? (answer.map (Option.map (Element.delivered kind.version?))) := by
  rw [Server.replyTo]
  cases answer with
  | none =>
    rw [show response.message = none from h]
    exact ⟨_, rfl, rfl⟩
  | some payload =>
    obtain ⟨m, hm, hsendable⟩ := h
    obtain ⟨bytes, m', hencode, hdecode, hbears, -⟩ :=
      Codec.decode_sent kind hsendable (hwritable payload rfl) response.soapAction
    rw [hm]
    simp only [hencode, Except.map, Except.bind, receive, hdecode]
    exact ⟨_, rfl, m', rfl, hbears⟩

end Transport

theorem Element.keyOf_delivered (version : Option SoapVersion) (payload : Option Element) :
    keyOf (payload.map (Element.delivered version)) = keyOf payload := by
  cases payload with
  | none => rfl
  | some e => exact name_delivered version e

/-- A request that is sent to a server runs the operation that claims its payload, once. If the answer of
the operation can be written, the response has it. -/
theorem Transport.exchange_toServer {b : Binding World} {c : AssemblySettings} {e : Endpoint World}
    {server : Server World} (h : server.Ready b c e) (hsecurity : c.security.enabled = false)
    (hchain : b.handlerConfig.chain = []) {operations : List (Operation World)}
    (hbuild : Endpoint.build b.kind operations = .ok e) {o : Operation World} (ho : o ∈ operations)
    (honly : ∀ o' ∈ operations, o'.key = o.key → o' = o) {payload : Option Element}
    (hkey : Element.keyOf payload = o.key) (hwritable : ∀ e ∈ payload, e.Writable) {p : Packet} {m : Message}
    (hm : p.message = some m) (hsendable : m.Sendable b.version? payload) (htwoWay : p.isOneWay = false)
    (hsize : ∀ body, (Codec.encode m).1 = .ok body → body.length ≤ c.maxBodySize)
    (haction : Server.demandsAction b c = true → (m.headers.find? (Addressing.name "Action")).isSome = true) :
    ∃ response server', exchange b.kind toServer p server = (response, server') ∧ server'.Ready b c e ∧
      server'.world = (o.run (payload.map (Element.delivered b.version?)) server.world).2 ∧
      let answer := Invoker.answered b.kind o.oneWay (o.run (payload.map (Element.delivered b.version?)) server.world).1
      ((∀ payload ∈ answer, ∀ e ∈ payload, e.Writable) →
        ∃ p', response = .ok p' ∧ p'.Bears b.version?
            (answer.map (Option.map (Element.delivered b.version?)))) := by
  obtain ⟨bytes, m', hencode, hdecode, hbears, hheaders⟩ :=
    Codec.decode_sent b.kind hsendable hwritable p.soapAction
  have hreceived : Server.demandsAction b c = true → (m'.headers.find? (Addressing.name "Action")).isSome = true := by
    intro hdemands
    have hversion : b.version?.isSome = true := by
      simp only [Server.demandsAction, Bool.and_eq_true] at hdemands
      exact hdemands.1.1
    rw [hheaders hversion]
    exact haction hdemands
  obtain ⟨response, server', hhandle, hready, hworld, hsends⟩ := h.handle_bears hsecurity hchain hbuild ho honly
    ((Element.keyOf_delivered b.version? payload).trans hkey) (hsize bytes hencode) hdecode hbears
      hreceived p.soapAction
  have hexchange : exchange b.kind toServer p server =
      ((Server.replyTo b.kind response).bind (receive b.kind p (Codec.contentType b.kind p.soapAction)), server') := by
    simp only [exchange, hm, hencode, toServer, hhandle, htwoWay, Bool.false_eq_true, if_false]
  exact ⟨_, server', hexchange, hready, hworld, fun hanswer => receive_sent hsends hanswer p _⟩

end SoapNode
