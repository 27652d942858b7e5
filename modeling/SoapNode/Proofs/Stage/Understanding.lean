import SoapNode.Proofs.Stage.Screens

/-!
# What a node has to understand

A block that is meant for the node, demands to be understood, and is neither marked nor named among what is
understood offends. A message without offending blocks goes on, with marks on the blocks that are understood;
any other is refused. The refusal of a server comes back from the wire as a fault, and in SOAP 1.2 its blocks
quote the offending names, up to what trimming cuts.
-/

namespace SoapNode

/-- The block is meant for a node that plays these roles. -/
inductive Header.Targets (v : SoapVersion) (roles : List String) (h : Header) : Prop where
  | ultimate (role : h.role? v = none ∨ h.role? v = some "")
  | played {role : String} (named : h.role? v = some role) (playable : v.noneRole? ≠ some role)
      (plays : role = v.nextRole ∨ role ∈ roles)

def Header.Demands (v : SoapVersion) (h : Header) : Prop :=
  ∃ value, h.element.attribute? v.mustUnderstandAttribute = some value ∧
    (Text.trim value = "1" ∨ Text.trim value = "true")

section Headers

variable {v : SoapVersion} {roles : List String} {h : Header}

theorem Header.targets_iff : h.Targets v roles ↔ h.isTargetedAt v roles = true := by
  constructor
  · rintro (hrole | ⟨hnamed, hplayable, hplays⟩)
    · rcases hrole with hnone | hempty
      · rw [isTargetedAt, hnone]
      · rw [isTargetedAt, hempty]
        rfl
    · rw [isTargetedAt, hnamed]
      simp only [if_neg hplayable]
      split
      · rfl
      · simpa using hplays
  · intro htargeted
    rw [isTargetedAt] at htargeted
    split at htargeted
    · rename_i hnone
      exact .ultimate (.inl hnone)
    · rename_i role hnamed
      split at htargeted
      · rename_i hempty
        rw [String.isEmpty_iff.mp hempty] at hnamed
        exact .ultimate (.inr hnamed)
      · split at htargeted
        · cases htargeted
        · rename_i hplayable
          exact .played hnamed hplayable (by simpa using htargeted)

theorem Header.demands_iff : h.Demands v ↔ h.mustUnderstand v = true := by
  rw [Demands, mustUnderstand]
  cases h.element.attribute? v.mustUnderstandAttribute <;> simp

instance : Decidable (h.Targets v roles) := decidable_of_iff _ Header.targets_iff.symm

instance : Decidable (h.Demands v) := decidable_of_iff _ Header.demands_iff.symm

end Headers

/-- Of the characters that may stand in a name one is white space. -/
theorem Name.eq_oghamSpace {c : Char} (hpart : Name.isPart c = true) (hblank : Text.isBlank c = true) :
    c = '\u1680' := by
  have hnat : c.toNat = 0x1680 := by
    simp only [Name.isPart, Name.isStart, Bool.or_eq_true, Bool.and_eq_true, decide_eq_true_eq, beq_iff_eq] at hpart
    simp only [Text.isBlank, Bool.or_eq_true, Bool.and_eq_true, decide_eq_true_eq, beq_iff_eq] at hblank
    omega
  exact Char.toNat_inj.mp hnat

theorem QName.told_of_isNCName {q : QName} (hname : isNCName q.localPart = true)
    (hspace : '\u1680' ∉ q.localPart.toList) : q.told = q := by
  have hfull : ∀ c ∈ q.localPart.toList, Text.isBlank c = false := by
    intro c hc
    rw [Bool.eq_false_iff]
    intro hblank
    rw [Name.eq_oghamSpace (Name.isPart_of_mem hname hc) hblank] at hc
    exact hspace hc
  have htrimmed : Text.Trimmed q.localPart.toList :=
    ⟨fun c hc => hfull c (List.mem_of_head? hc), fun c hc => hfull c (List.mem_of_getLast? hc)⟩
  rw [QName.told, htrimmed.trim_eq, Text.trimEnd_eq_self htrimmed.last, String.ofList_toList, ite_self]

namespace MustUnderstand

/-- The block at a position is one that the node must not ignore and nobody there processes. -/
structure Offends (v : SoapVersion) (roles : List String) (names : List QName) (l : HeaderList) (h : Header)
    (i : Nat) : Prop where
  targets : h.Targets v roles
  demands : h.Demands v
  unnamed : h.name ∉ names
  unmarked : i ∉ l.marks

variable {World : Type} {v : SoapVersion} {roles : List String} {names : List QName} {l : HeaderList} {m : Message}

theorem offends_iff {h : Header} {i : Nat} :
    Offends v roles names l h i ↔ h.Targets v roles ∧ h.Demands v ∧ h.name ∉ names ∧ i ∉ l.marks :=
  ⟨fun ⟨a, b, c, d⟩ => ⟨a, b, c, d⟩, fun ⟨a, b, c, d⟩ => ⟨a, b, c, d⟩⟩

instance (h : Header) (i : Nat) : Decidable (Offends v roles names l h i) := decidable_of_iff _ offends_iff.symm

/-- The names of the offending blocks, in their order. -/
def offending (v : SoapVersion) (roles : List String) (names : List QName) (l : HeaderList) : List QName :=
  (l.blocks.zipIdx.filter (fun (h, i) => Offends v roles names l h i)).map (·.1.name)

theorem missing_eq (v : SoapVersion) (roles : List String) (names : List QName) (l : HeaderList) :
    missing v roles names l = offending v roles names l := by
  rw [missing, targeted, offending, List.filter_filter]
  refine congrArg _ (List.filter_congr ?_)
  rintro ⟨h, i⟩ -
  rw [Bool.eq_iff_iff]
  simp [offends_iff, Header.targets_iff, Header.demands_iff, isProcessed, HeaderList.isUnderstood]
  tauto

/-- The message with marks on the blocks that are meant for the node and understood there. -/
structure Understood (v : SoapVersion) (roles : List String) (names : List QName) (m m' : Message) : Prop where
  blocks : m'.headers.blocks = m.headers.blocks
  marks : ∀ i, i ∈ m'.headers.marks ↔
    i ∈ m.headers.marks ∨ ∃ h, m.headers.blocks[i]? = some h ∧ h.Targets v roles ∧ h.name ∈ names
  rest : m' = { m with headers := m'.headers }

theorem mem_marks_foldl {i : Nat} (marked : List (Header × Nat)) :
    i ∈ (marked.foldl (fun l (_, i) => l.mark i) l).marks ↔ i ∈ l.marks ∨ ∃ h, (h, i) ∈ marked := by
  induction marked generalizing l with
  | nil => simp
  | cons x marked ih =>
    obtain ⟨g, j⟩ := x
    rw [List.foldl_cons, ih, HeaderList.mem_marks_mark]
    grind

theorem understood_markProcessed (v : SoapVersion) (roles : List String) (names : List QName) (m : Message) :
    Understood v roles names m { m with headers := markProcessed v roles names m.headers } where
  blocks := blocks_markProcessed roles m.headers
  marks i := by
    rw [markProcessed, mem_marks_foldl]
    simp only [targeted, isProcessed, HeaderList.isUnderstood, List.mem_filter,
      List.mem_zipIdx_iff_getElem?, Header.targets_iff, Bool.or_eq_true, List.contains_iff_mem]
    grind
  rest := rfl

/-- The names that the blocks of a message quote, each read where its block stands. -/
def quoted (m : Message) : List (Option QName) :=
  (m.headers.blocks.filter (·.name = SoapVersion.v12.name "NotUnderstood")).map
    (fun h => (h.element.attribute? (.unqualified "qname")).bind (resolveQName · [h.element]))

/-- Written and read again, the message tells a fault of the version that blocks were not understood. In SOAP 1.2 it
quotes their names, if these are such as may stand in a document. -/
structure Refuses (v : SoapVersion) (names : List QName) (answer : Message) : Prop where
  version_eq : answer.version = some v
  received : ∃ bytes m f, answer.toEnvelope.1 = .ok bytes ∧ Envelope.parse bytes = .ok m ∧
    m.readFault.1 = .ok (some f) ∧ f.toProtocol.version = v ∧ f.toProtocol.code = v.mustUnderstandCode ∧
    (v = .v12 → (∀ q ∈ names, isNCName q.localPart = true) → quoted m = names.map (fun q => some q.told) ∧
      ∀ q ∈ names, '\u1680' ∉ q.localPart.toList → q.told = q)

/-- A block of a refusal, as it is read. -/
def quoting (declarations : List PrefixBinding) (value : String) : Element :=
  ⟨⟨SoapVersion.v12.name "NotUnderstood", some "env",
    declarations ++ [("env", SoapVersion.v12.envelopeUri), (envelopePrefix, SoapVersion.v12.envelopeUri)],
    [⟨.unqualified "qname", none, value⟩]⟩, []⟩

theorem attribute?_quoting (declarations : List PrefixBinding) (value : String) :
    (quoting declarations value).attribute? (.unqualified "qname") = some value := rfl

def received (name : QName) : Element :=
  if name.namespaceUri = "" then quoting [] name.localPart
  else quoting [("nu", name.namespaceUri)] ("nu:" ++ name.localPart)

theorem settle_notUnderstoodBlock (name : QName) :
    ((notUnderstoodBlock .v12 name).element.settle []).inherit (Envelope.frame .v12) = received name := by
  rw [notUnderstoodBlock, received]
  by_cases huri : name.namespaceUri = ""
  · rw [if_pos huri, huri]
    rfl
  · rw [if_neg huri, if_neg (by simpa using huri)]
    rfl

theorem resolve_received {name : QName} (hname : name.Tellable) :
    ((received name).attribute? (.unqualified "qname")).bind (resolveQName · [received name]) = some name.told := by
  rw [received]
  by_cases huri : name.namespaceUri = ""
  · have hsplit := splitQualified_of_not_mem (QName.colon_not_mem_trim (hname huri))
    have hdefault : (scopesOf [quoting [] name.localPart]).resolve "" = none := rfl
    rw [if_pos huri, QName.told_of_unqualified huri, attribute?_quoting, Option.bind_some,
      resolveQName_default hsplit rfl, hdefault]
    rfl
  · have htrim : Text.trim ("nu:" ++ name.localPart) = "nu" ++ ":" ++
        String.ofList (Text.trimEnd name.localPart.toList) := by
      apply String.toList_injective
      rw [Text.toList_trim, String.toList_append,
        Text.trimChars_append (by decide) (by simp [Text.isBlank]) (by simp [Text.isBlank])]
      simp
    have hsplit : splitQualified (Text.trim ("nu:" ++ name.localPart)) =
        (some "nu", String.ofList (Text.trimEnd name.localPart.toList)) := by
      rw [htrim, splitQualified_append (by decide)]
    have hprefix : ∀ value, (scopesOf [quoting [("nu", name.namespaceUri)] value]).resolve "nu" =
        some name.namespaceUri :=
      fun _ => rfl
    rw [if_neg huri, QName.told_of_qualified huri, attribute?_quoting, Option.bind_some,
      resolveQName_prefixed hsplit (by decide), Option.getD_some, hprefix, Option.map_some]

theorem blocks_faultMessage (names : List QName) :
    (faultMessage .v12 names).headers.blocks = names.map (notUnderstoodBlock .v12) := by
  have hfold : ∀ (names : List QName) (m : Message),
      (names.foldl (fun m name => m.addHeader (notUnderstoodBlock .v12 name)) m).headers.blocks =
        m.headers.blocks ++ names.map (notUnderstoodBlock .v12) := by
    intro names
    induction names with
    | nil => exact fun m => (List.append_nil _).symm
    | cons name names ih =>
      intro m
      rw [List.foldl_cons, ih, List.map_cons, List.append_cons]
      rfl
  exact hfold names _

theorem quoted_message {names : List QName} (hnames : ∀ q ∈ names, q.Tellable) (payload : Option Element) :
    quoted (Envelope.message .v12 ((names.map (notUnderstoodBlock .v12)).map (·.element.settle [])) payload) =
      names.map (fun q => some q.told) := by
  have hblocks : (Envelope.message .v12 ((names.map (notUnderstoodBlock .v12)).map (·.element.settle []))
      payload).headers.blocks = names.map (fun name => ⟨received name⟩) := by
    show ((((names.map (notUnderstoodBlock .v12)).map (·.element.settle [])).map
      (·.inherit (Envelope.frame .v12))).map Header.mk) = _
    rw [List.map_map, List.map_map, List.map_map]
    exact List.map_congr_left (fun name _ => congrArg Header.mk (settle_notUnderstoodBlock name))
  have hname : ∀ name, (received name).name = SoapVersion.v12.name "NotUnderstood" := by
    intro name
    rw [received]
    split <;> rfl
  rw [quoted, hblocks, List.filter_eq_self.mpr, List.map_map]
  · exact List.map_congr_left (fun name hmem => resolve_received (hnames name hmem))
  · intro h hh
    obtain ⟨name, -, rfl⟩ := List.mem_map.mp hh
    exact decide_eq_true (hname name)

theorem refuses_faultMessage (v : SoapVersion) (names : List QName) : Refuses v names (faultMessage v names) := by
  have hencodable := encodable_faultMessage v names
  have htellable : (fault v names).Tellable := ProtocolFault.tellable_mustUnderstand v _
  have hbytes := Message.toEnvelope_eq hencodable.version_eq hencodable.payload_eq
  have hparse := Envelope.parse_written v ((faultMessage v names).headers.blocks.map (·.element))
    (some (SoapFault.ofProtocol (fault v names)).toElement)
    (fun e he => by obtain ⟨h, hh, rfl⟩ := List.mem_map.mp he; exact hencodable.blocks h hh)
    (fun e he => Option.mem_some_iff.mp he ▸ htellable.writable.toElement)
  have hversion : (SoapFault.ofProtocol (fault v names)).version = v := ProtocolFault.version_ofProtocol _
  have herase := ProtocolFault.erase_overTheWire (fault v names)
  have hinherit := (SoapFault.ofProtocol (fault v names)).inherit_settle
  rw [hversion] at hinherit
  refine ⟨hencodable.version_eq, _, _, _, hbytes, hparse,
    Message.readFault_settle htellable.writable ?_ ?_ rfl, ?_, ?_, ?_⟩
  · rw [hversion]
    rfl
  · exact congrArg Payload.tree hinherit
  · exact congrArg ProtocolFault.version herase
  · have hcode : (v.mapCode v.mustUnderstandCode).told = v.mustUnderstandCode := by cases v <;> decide
    exact (congrArg ProtocolFault.code herase).trans hcode
  · rintro rfl hnames
    refine ⟨?_, fun q hq => QName.told_of_isNCName (hnames q hq)⟩
    rw [blocks_faultMessage, List.map_map]
    exact quoted_message (fun q hq => QName.tellable_of_isNCName (hnames q hq)) _

end MustUnderstand

theorem Packet.sameContent_isFault (p : Packet) : p.SameContent p.isFault.2 := by
  obtain ⟨message, properties⟩ := p
  cases message with
  | none => exact ⟨rfl, .none⟩
  | some m => exact ⟨rfl, .some m.sameContent_isFault⟩

/-- The names of the offending blocks of a packet. -/
def Packet.offending (v : SoapVersion) (roles : List String) (names : List QName) (p : Packet) : List QName :=
  p.message.elim [] (fun m => MustUnderstand.offending v roles names m.headers)

/-- The packet with marks on the blocks of its message that are understood. -/
structure Packet.Understood (v : SoapVersion) (roles : List String) (names : List QName) (p p' : Packet) : Prop where
  properties_eq : p'.properties = p.properties
  message : Option.Rel (MustUnderstand.Understood v roles names) p.message p'.message

theorem Packet.SameContent.offending {v : SoapVersion} {roles : List String} {names : List QName} {p p' : Packet}
    (h : p.SameContent p') : p'.offending v roles names = p.offending v roles names := by
  obtain ⟨message, properties⟩ := p
  obtain ⟨message', properties'⟩ := p'
  cases h.message with
  | none => rfl
  | some hsame => exact congrArg (MustUnderstand.offending v roles names) hsame.headers_eq

namespace MustUnderstand

variable {World : Type} {v : SoapVersion}

theorem onMessage_check (v : SoapVersion) (understood : List QName) (b : Binding World) (p : Packet) :
    let c := b.handlerConfig
    ∃ p', p.onMessage [] (check v understood b) = (p.offending v c.roles (understood ++ c.understood), p') ∧
      p.Understood v c.roles (understood ++ c.understood) p' := by
  obtain ⟨message, properties⟩ := p
  cases message with
  | none => exact ⟨_, rfl, rfl, .none⟩
  | some m =>
    refine ⟨_, congrArg (·, _) (missing_eq v _ _ m.headers), rfl, .some (understood_markProcessed v _ _ m)⟩

/-- What becomes of a request at a server. -/
inductive Served (v : SoapVersion) (roles : List String) (names : List QName) (next : TubeId) (p : Packet) :
    NextAction → Prop where
  | passed {p' : Packet} (complete : p.offending v roles names = []) (understood : p.Understood v roles names p') :
      Served v roles names next p (.invoke next p')
  | refused {answer : Message} {p' : Packet} (left : p.offending v roles names ≠ [])
      (refuses : Refuses v (p.offending v roles names) answer) (message : p'.message = some answer)
      (properties : p'.properties = p.properties) : Served v roles names next p (.ret p')

/-- What becomes of a response at a client. -/
inductive Accepted (v : SoapVersion) (roles : List String) (names : List QName) (p : Packet) : NextAction → Prop where
  | fault {p' : Packet} (isFault : p.isFault.1 = true) (same : p.SameContent p') : Accepted v roles names p (.ret p')
  | passed {q p' : Packet} (message : p.isFault.1 = false) (complete : p.offending v roles names = [])
      (same : p.SameContent q) (understood : q.Understood v roles names p') : Accepted v roles names p (.ret p')
  | refused {f : ProtocolFault} (message : p.isFault.1 = false) (left : p.offending v roles names ≠ [])
      (version : f.version = v) (code : f.code = v.mustUnderstandCode) : Accepted v roles names p (.throw (.protocol f))

theorem served_request (understood : List QName) {s : SiteStore World} (hversion : s.world.binding.version? = some v)
    {w : Wiring} {next : TubeId} (hnext : w.next? = some next) (p : Packet) :
    let c := s.world.binding.handlerConfig
    ∃ a, request .server understood w p s = (a, s) ∧ Served v c.roles (understood ++ c.understood) next p a := by
  intro c
  obtain ⟨p', hcheck, hunderstood⟩ := onMessage_check v understood s.world.binding p
  have hrefuses := refuses_faultMessage v (p.offending v c.roles (understood ++ c.understood))
  cases hleft : p.offending v c.roles (understood ++ c.understood) with
  | nil =>
    rw [hleft] at hcheck
    refine ⟨.invoke next p', ?_, .passed hleft hunderstood⟩
    simp only [request, hversion, hcheck, Wiring.invokeNext, hnext]
  | cons name names =>
    rw [hleft] at hcheck
    let answer := faultMessage v (p.offending v c.roles (understood ++ c.understood))
    refine ⟨.ret (p'.respond (some answer)), ?_,
      .refused (hleft ▸ List.cons_ne_nil name names) hrefuses rfl hunderstood.properties_eq⟩
    simp only [answer, request, hversion, hcheck, hleft]

theorem accepted_response (understood : List QName) {s : SiteStore World}
    (hversion : s.world.binding.version? = some v) (p : Packet) :
    let c := s.world.binding.handlerConfig
    ∃ a, response .client understood p s = (a, s) ∧ Accepted v c.roles (understood ++ c.understood) p a := by
  intro c
  have hsame := p.sameContent_isFault
  rcases hfault : p.isFault with ⟨isFault, q⟩
  rw [hfault] at hsame
  cases isFault with
  | true =>
    refine ⟨.ret q, ?_, .fault (congrArg Prod.fst hfault) hsame⟩
    simp only [response, hversion, hfault, if_true]
  | false =>
    obtain ⟨p', hcheck, hunderstood⟩ := onMessage_check v understood s.world.binding q
    rw [hsame.offending] at hcheck
    cases hleft : p.offending v c.roles (understood ++ c.understood) with
    | nil =>
      rw [hleft] at hcheck
      refine ⟨.ret p', ?_, .passed (congrArg Prod.fst hfault) hleft hsame hunderstood⟩
      simp only [response, hversion, hfault, Bool.false_eq_true, if_false, hcheck]
    | cons name names =>
      rw [hleft] at hcheck
      refine ⟨.throw (.protocol (fault v (name :: names))), ?_, .refused (congrArg Prod.fst hfault) ?_ rfl rfl⟩
      · simp only [response, hversion, hfault, Bool.false_eq_true, if_false, hcheck]
      · rw [hleft]
        exact List.cons_ne_nil name names

/-- The stage of a server passes on exactly the requests without an offending block, and the stage of a client
exactly such responses, and faults. -/
theorem stage_exact (understood : List QName) {s : SiteStore World} (hversion : s.world.binding.version? = some v)
    {w : Wiring} {next : TubeId} (hnext : w.next? = some next) (p : Packet) :
    let c := s.world.binding.handlerConfig
    let names := understood ++ c.understood
    (∃ a, (stage .server understood).request w p s = (a, s) ∧ Served v c.roles names next p a) ∧
      (stage .server understood).response w p s = (.ret p, s) ∧
      (stage .client understood).request w p s = (.invoke next p, s) ∧
      ∃ a, (stage .client understood).response w p s = (a, s) ∧ Accepted v c.roles names p a := by
  intro c names
  refine ⟨served_request understood hversion hnext p, ?_, ?_, accepted_response understood hversion p⟩
  · show response .server understood p s = _
    simp only [response]
  · show request .client understood w p s = _
    simp only [request, Wiring.invokeNext, hnext]

def soap12Site : SiteStore Unit := ⟨[], .new (.new .soap12) default ()⟩

/-- A request with an empty block that has to be understood. -/
def demanding (name : QName) : Packet :=
  .ofMessage ((Message.ofPayload (some .v12) .empty).addHeader ((Header.mk (.named name)).withMustUnderstand .v12))

theorem stage_exact_transaction :
    let tx : QName := ⟨"urn:tx", "Transaction"⟩
    ∃ answer, (stage .server []).request ⟨1, [0], []⟩ (demanding tx) soap12Site =
      (.ret ⟨some answer, (demanding tx).properties⟩, soap12Site) ∧ Refuses .v12 [tx] answer := by
  intro tx
  have hversion : soap12Site.world.binding.version? = some .v12 := rfl
  have hnext : Wiring.next? ⟨1, [0], []⟩ = some 0 := rfl
  obtain ⟨a, hrequest, hserved⟩ := (stage_exact [] hversion hnext (demanding tx)).1
  have hoffending : (demanding tx).offending .v12 soap12Site.world.binding.handlerConfig.roles
    ([] ++ soap12Site.world.binding.handlerConfig.understood) = [tx] := by decide
  cases hserved with
  | passed complete =>
    rw [hoffending] at complete
    cases complete
  | @refused answer p' _ refuses message properties =>
    rw [hoffending] at refuses
    obtain rfl : p' = ⟨some answer, (demanding tx).properties⟩ := congrArg₂ Packet.mk message properties
    exact ⟨answer, hrequest, refuses⟩

/-- The Ogham space mark may stand in a name and is white space: a name that ends with it is quoted without it. -/
theorem quoted_oghamSpace :
    let late : QName := ⟨"urn:tx", "Late\u1680"⟩
    isNCName late.localPart = true ∧ (demanding late).offending .v12
      soap12Site.world.binding.handlerConfig.roles [] = [late] ∧
      ∃ answer bytes m, (stage .server []).request ⟨1, [0], []⟩ (demanding late) soap12Site =
        (.ret ⟨some answer, (demanding late).properties⟩, soap12Site) ∧
        answer.toEnvelope.1 = .ok bytes ∧ Envelope.parse bytes = .ok m ∧ quoted m ≠ [some late] := by
  intro late
  obtain ⟨bytes, m, -, hbytes, hparse, -, -, -, hquoted⟩ := (refuses_faultMessage .v12 [late]).received
  refine ⟨by decide, by decide, faultMessage .v12 [late], bytes, m, rfl, hbytes, hparse, ?_⟩
  rw [(hquoted rfl (by decide)).1]
  decide

end MustUnderstand

end SoapNode
