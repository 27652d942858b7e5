import SoapNode.Proofs.Property.Packets
import SoapNode.Stage.Transport

/-!
# The keys of a packet

Every property set lists the keys that hold a value in it. The keys of a packet are those of all its sets, though
only one of them answers for a key. So a key is listed without a value where the first satellite has none and a
later one, or the map of the packet, still has one that was stored before. Such a key is hidden. No history of a
packet makes other exceptions: its map never holds a key that has a place of its own.
-/

namespace SoapNode

open PropertySet

/-- The keys are those that hold a value. -/
def PropertySet.Lists {σ : Type} [PropertySet σ] (s : σ) : Prop := ∀ k, k ∈ keys s ↔ (get? s k).isSome = true

/-! ### The keys of each set -/

theorem PropertyMap.lists (m : PropertyMap) : Lists m := by
  intro k
  show k ∈ m.entries.map (·.1) ↔ (m.entries.lookup k).isSome = true
  rw [List.lookup_isSome_iff, List.mem_map]
  constructor
  · rintro ⟨e, he, rfl⟩
    exact ⟨e, he, beq_self_eq_true _⟩
  · rintro ⟨e, he, hk⟩
    exact ⟨e, he, (beq_iff_eq.mp hk).symm⟩

namespace TransportProperties

theorem get?_eq_none (t : TransportProperties) {key : String} (hkey : key ∉ ownKeys) :
    PropertySet.get? t key = none := by
  have hkeys : key ≠ contentTypeKey ∧ key ≠ responseContentTypeKey := by simpa [ownKeys] using hkey
  show t.get? key = none
  rw [get?, if_neg hkeys.1, if_neg hkeys.2]

theorem lists (t : TransportProperties) : Lists t := by
  intro k
  show k ∈ ownKeys.filter (fun k => (PropertySet.get? t k).isSome) ↔ _
  rw [List.mem_filter, and_iff_right_iff_imp]
  intro hheld
  by_contra hkey
  rw [t.get?_eq_none hkey] at hheld
  cases hheld

end TransportProperties

namespace PacketProperties

/-- The keys that are not kept in the map. -/
def ownKeys : List String := typedKeys ++ [operationKey]

/-- The map holds none of the keys that have a place of their own. -/
def Apart (p : PacketProperties) : Prop := ∀ k ∈ ownKeys, p.others.get? k = none

variable {p q : PacketProperties} {key : String}

theorem get?_of_not_own (p : PacketProperties) (hkey : key ∉ ownKeys) :
    PropertySet.get? p key = PropertySet.get? p.others key := by
  have hkeys : key ≠ actionKey ∧ key ≠ addressKey ∧ key ≠ replyKey ∧ key ≠ messageIdKey ∧
      key ≠ operationKey := by
    simpa [ownKeys, typedKeys] using hkey
  show p.get? key = p.others.get? key
  rw [get?, if_neg hkeys.1, if_neg hkeys.2.1, if_neg hkeys.2.2.1, if_neg hkeys.2.2.2.1, if_neg hkeys.2.2.2.2]

theorem Apart.lists (h : p.Apart) : Lists p := by
  intro k
  show k ∈ ownKeys.filter (fun k => (PropertySet.get? p k).isSome) ++ PropertySet.keys p.others ↔ _
  rw [List.mem_append, List.mem_filter, p.others.lists]
  by_cases hkey : k ∈ ownKeys
  · have hnone : PropertySet.get? p.others k = none := h k hkey
    simp [hkey, hnone]
  · simp [hkey, p.get?_of_not_own hkey]

theorem apart_empty : empty.Apart := fun _ _ => rfl

theorem Apart.congr (h : p.Apart) (hothers : q.others = p.others) : q.Apart := fun k hk => hothers ▸ h k hk

theorem others_storeRead {α : Type} {read : Except PropertyError α} {held : Option PropertyValue}
    {set : α → PacketProperties} (hset : ∀ a, (set a).others = p.others) :
    (storeRead p held read set).2.others = p.others := by
  cases read with
  | error e => rfl
  | ok a => exact hset a

/-- A write reaches the map only with a key that has no place of its own. -/
theorem others_write (p : PacketProperties) (key : String) (value : PropertyValue) :
    (PropertySet.write p key value).2.others = p.others ∨
      key ∉ ownKeys ∧ (PropertySet.write p key value).2.others = p.others.put key value := by
  show (p.write key value).2.others = p.others ∨ key ∉ ownKeys ∧
    (p.write key value).2.others = p.others.put key value
  rw [write]
  split_ifs with haction haddress hreply hid hoperation
  · exact .inl (others_storeRead (fun _ => rfl))
  · exact .inl (others_storeRead (fun _ => rfl))
  · exact .inl (others_storeRead (fun _ => rfl))
  · exact .inl (others_storeRead (fun _ => rfl))
  · exact .inl rfl
  · exact .inr ⟨by simp [ownKeys, typedKeys, haction, haddress, hreply, hid, hoperation], rfl⟩

theorem Apart.write (h : p.Apart) (key : String) (value : PropertyValue) : (PropertySet.write p key value).2.Apart := by
  rcases p.others_write key value with hothers | ⟨hkey, hothers⟩
  · exact h.congr hothers
  · intro k hk
    rw [hothers, PropertyMap.get?_put, if_neg (ne_of_mem_of_not_mem hk hkey)]
    exact h k hk

theorem Apart.erase (h : p.Apart) (key : String) : (PropertySet.erase p key).2.Apart := by
  show (p.erase key).2.Apart
  rw [PacketProperties.erase]
  split_ifs
  · exact h.write key .null
  · intro k hk
    rw [PropertyMap.get?_remove]
    split_ifs
    · rfl
    · exact h k hk

end PacketProperties

namespace Distributed

theorem foldl_distinct (ks seen : List String) (hseen : seen.Nodup) :
    (ks.foldl (fun seen k => if seen.contains k then seen else seen ++ [k]) seen).Nodup ∧
      ∀ k, k ∈ ks.foldl (fun seen k => if seen.contains k then seen else seen ++ [k]) seen ↔
        k ∈ seen ∨ k ∈ ks := by
  induction ks generalizing seen with
  | nil => exact ⟨hseen, by simp⟩
  | cons a ks ih =>
    rw [List.foldl_cons]
    split_ifs with ha
    · obtain ⟨hnodup, hmem⟩ := ih seen hseen
      refine ⟨hnodup, fun k => ?_⟩
      have ha' : a ∈ seen := List.contains_iff_mem.mp ha
      grind
    · have ha' : a ∉ seen := mt List.contains_iff_mem.mpr ha
      obtain ⟨hnodup, hmem⟩ :=
        ih (seen ++ [a]) (List.nodup_append.mpr ⟨hseen, List.pairwise_singleton _ a, by grind⟩)
      exact ⟨hnodup, fun k => by grind⟩

theorem nodup_distinct (ks : List String) : (distinct ks).Nodup := (foldl_distinct ks [] List.nodup_nil).1

theorem mem_distinct {ks : List String} {k : String} : k ∈ distinct ks ↔ k ∈ ks := by
  rw [distinct, (foldl_distinct ks [] List.nodup_nil).2]
  simp

variable {ω σ : Type} [PropertySet ω] [PropertySet σ] {d : Distributed ω σ} {key : String}

/-- The key has a value in some set, whether or not that set answers for it. -/
def Stores (d : Distributed ω σ) (key : String) : Prop :=
  (∃ s ∈ d.satellites, (PropertySet.get? s key).isSome = true) ∨ (PropertySet.get? d.owner key).isSome = true

theorem mem_keys_iff_stores (hsatellites : ∀ s ∈ d.satellites, Lists s) (howner : Lists d.owner) :
    key ∈ PropertySet.keys d ↔ d.Stores key := by
  show key ∈ distinct (d.satellites.flatMap PropertySet.keys ++ PropertySet.keys d.owner) ↔ _
  rw [mem_distinct, List.mem_append, List.mem_flatMap, howner]
  exact or_congr_left (exists_congr fun s => and_congr_right fun hs => hsatellites s hs key)

end Distributed

namespace Transport

variable {World : Type} {kind : BindingKind} {t : Transport World} {p q : Packet} {w w' : World}

/-- A response has the satellites of its request without the first one, and then its own. -/
theorem properties_of_receive {sent : String} {reply : Option WireMessage} (h : receive kind p sent reply = .ok q) :
    ∃ satellite, q.properties = ⟨p.typed, p.properties.satellites.tail ++ [satellite]⟩ := by
  have hkept : ∀ m satellite, (receive.withProperties p m satellite).properties =
      ⟨p.typed, p.properties.satellites.tail ++ [satellite]⟩ := by
    intro m satellite
    obtain ⟨message, owner, satellites⟩ := p
    cases satellites <;> rfl
  cases reply with
  | none =>
    cases h
    exact ⟨_, hkept ..⟩
  | some reply =>
    rw [receive] at h
    cases hdecode : Codec.decode kind reply.body (some reply.contentType) with
    | error e =>
      rw [hdecode] at h
      cases h
    | ok m =>
      rw [hdecode] at h
      cases h
      exact ⟨_, hkept ..⟩

theorem properties_of_exchange (h : exchange kind t p w = (.ok q, w')) :
    ∃ satellite, q.properties = ⟨p.typed, p.properties.satellites.tail ++ [satellite]⟩ := by
  rw [exchange] at h
  cases hmessage : p.message with
  | none =>
    rw [hmessage] at h
    cases h
  | some m =>
    rw [hmessage] at h
    cases hencode : (Codec.encode m).1 with
    | error e =>
      simp only [hencode] at h
      cases h
    | ok body =>
      simp only [hencode] at h
      generalize t ⟨body, Codec.contentType kind p.soapAction⟩ p.soapAction p.isOneWay w = sent at h
      obtain ⟨answer, w''⟩ := sent
      cases answer with
      | error e => cases h
      | ok reply => exact properties_of_receive (congrArg Prod.fst h)

end Transport

namespace Packet

/-- What may be done to the properties of a packet. -/
inductive Turn : Packet → Packet → Prop where
  | write (p : Packet) (key : String) (value : PropertyValue) : Turn p (PropertySet.write p key value).2
  | erase (p : Packet) (key : String) : Turn p (PropertySet.erase p key).2
  | setSoapAction (p : Packet) (s : Option String) : Turn p (p.setSoapAction s)
  | setEndpointAddress (p : Packet) (s : Option String) : Turn p (p.setEndpointAddress s)
  | setExpectsReply (p : Packet) (b : Bool) : Turn p (p.setExpectsReply b)
  | setMessageId (p : Packet) (s : Option String) : Turn p (p.setMessageId s)
  | setOperation (p : Packet) (s : Option String) : Turn p (p.setOperation s)
  | attach (p : Packet) (t : TransportProperties) : Turn p { p with properties := p.properties.attach t }
  | detach {p : Packet} {t : TransportProperties} {rest : Distributed PacketProperties TransportProperties}
      (h : p.properties.detach (fun _ => true) = some (t, rest)) : Turn p { p with properties := rest }
  | respond (p : Packet) (m : Option Message) : Turn p (p.respond m)
  | exchange {World : Type} {kind : BindingKind} {t : Transport World} {p q : Packet} {w w' : World}
      (h : Transport.exchange kind t p w = (.ok q, w')) : Turn p q

/-- The packets that come about from a new one. -/
inductive Reached : Packet → Prop where
  | fresh (m : Option Message) : Reached (ofMessage? m)
  | next {p q : Packet} (h : Reached p) (turn : Turn p q) : Reached q

/-- A key is hidden where the first satellite has no value for it, but a later one or the map of the packet has. -/
def Hides (p : Packet) (key : String) : Prop :=
  key ∈ TransportProperties.ownKeys ∧ ∃ first rest, p.properties.satellites = first :: rest ∧
    get? first key = none ∧
    ((∃ t ∈ rest, (get? t key).isSome = true) ∨ (get? p.typed.others key).isSome = true)

variable {p q : Packet} {key : String}

theorem apart_change (hp : p.typed.Apart) (key : String)
    (inSatellite : TransportProperties → Except PropertyError (Option PropertyValue) × TransportProperties)
    (inOwner : PacketProperties → Except PropertyError (Option PropertyValue) × PacketProperties)
    (howner : (inOwner p.typed).2.Apart) : (p.properties.change key inSatellite inOwner).2.owner.Apart := by
  rcases p.properties.owner_change key inSatellite inOwner with hsame | hchanged
  · rw [hsame]
    exact hp
  · rw [hchanged]
    exact howner

theorem Turn.apart (h : Turn p q) (hp : p.typed.Apart) : q.typed.Apart := by
  cases h with
  | write _ key value =>
    exact apart_change hp key (PropertySet.write · key value) (PropertySet.write · key value) (hp.write key value)
  | erase _ key => exact apart_change hp key (PropertySet.erase · key) (PropertySet.erase · key) (hp.erase key)
  | setSoapAction s => exact hp.congr rfl
  | setEndpointAddress s => exact hp.congr rfl
  | setExpectsReply b => exact hp.congr rfl
  | setMessageId s => exact hp.congr rfl
  | setOperation s => exact hp.congr rfl
  | attach t => exact hp
  | detach h =>
    rw [Distributed.detach] at h
    split at h
    · cases h
    · cases h
      exact hp
  | respond m => exact hp
  | exchange h =>
    obtain ⟨satellite, hq⟩ := Transport.properties_of_exchange h
    rw [typed, hq]
    exact hp

theorem Reached.apart (h : Reached p) : p.typed.Apart := by
  induction h with
  | fresh m => exact PacketProperties.apart_empty
  | next _ turn ih => exact turn.apart ih

theorem get?_typed (p : Packet) (hkey : key ∈ TransportProperties.ownKeys) :
    get? p.typed key = get? p.typed.others key := by
  apply PacketProperties.get?_of_not_own
  revert hkey
  simp only [TransportProperties.ownKeys, List.mem_cons, List.not_mem_nil, or_false]
  rintro (rfl | rfl) <;> decide

/-- What is stored has a value or is hidden. -/
theorem stores_iff (p : Packet) (key : String) :
    p.properties.Stores key ↔ (get? p key).isSome = true ∨ p.Hides key := by
  rcases p.answered key with ⟨first, hfor, hkey, -⟩ | ⟨hfor, hnot⟩
  · have hget : get? p key = get? first key := Distributed.get?_of_satellite hfor
    rw [satelliteFor?_eq, if_pos hkey] at hfor
    obtain ⟨rest, hsatellites⟩ := List.head?_eq_some_iff.mp hfor
    have hhides : p.Hides key ↔ get? first key = none ∧
        ((∃ t ∈ rest, (get? t key).isSome = true) ∨ (get? p.typed key).isSome = true) := by
      rw [Hides, hsatellites, p.get?_typed hkey]
      simp [hkey]
    rw [hhides, hget, Distributed.Stores, hsatellites]
    simp only [List.mem_cons, exists_eq_or_imp, or_assoc]
    show _ ∨ _ ∨ (get? p.typed key).isSome = true ↔ _
    cases get? first key <;> simp
  · have hget : get? p key = get? p.typed key := Distributed.get?_of_owner hfor
    have hhides : ¬p.Hides key := by
      rintro ⟨hkey, first, rest, hsatellites, -⟩
      exact hnot ⟨hkey, hsatellites ▸ List.cons_ne_nil first rest⟩
    have hsatellites : ¬∃ t ∈ p.properties.satellites, (get? t key).isSome = true := by
      rintro ⟨t, ht, hheld⟩
      have hkey := t.supports_iff.not.mp (List.find?_eq_none.mp hfor t ht)
      rw [t.get?_eq_none hkey] at hheld
      cases hheld
    rw [Distributed.Stores, hget]
    simp only [hsatellites, hhides, false_or, or_false]
    rfl

theorem Hides.get?_eq_none (h : p.Hides key) : get? p key = none := by
  obtain ⟨hkey, first, rest, hsatellites, hnone, -⟩ := h
  have hfor : p.properties.satelliteFor? key = some first := by
    rw [satelliteFor?_eq, if_pos hkey, hsatellites, List.head?_cons]
  exact (Distributed.get?_of_satellite hfor).trans hnone

theorem Reached.mem_keys_iff_stores (h : Reached p) (key : String) : key ∈ keys p ↔ p.properties.Stores key :=
  Distributed.mem_keys_iff_stores (fun t _ => t.lists) h.apart.lists

/-- The keys of a packet are distinct, and are those that have a value or are hidden. No key is both, so the keys are
exactly those with a value where nothing is hidden, as in every packet without satellites. -/
theorem Reached.keys_exact_iff (h : Reached p) :
    (keys p).Nodup ∧ (∀ k, k ∈ keys p ↔ (get? p k).isSome = true ∨ p.Hides k) ∧
      (∀ k, p.Hides k → get? p k = none) ∧
      ((∀ k, k ∈ keys p ↔ (get? p k).isSome = true) ↔ ∀ k, ¬p.Hides k) ∧
      (p.properties.satellites = [] → ∀ k, ¬p.Hides k) := by
  have hmem : ∀ k, k ∈ keys p ↔ (get? p k).isSome = true ∨ p.Hides k :=
    fun k => (h.mem_keys_iff_stores k).trans (p.stores_iff k)
  refine ⟨Distributed.nodup_distinct _, hmem, fun k hk => hk.get?_eq_none, ?_, ?_⟩
  · constructor
    · intro hexact k hk
      have hheld := (hexact k).mp ((hmem k).mpr (.inr hk))
      rw [hk.get?_eq_none] at hheld
      cases hheld
    · intro hnone k
      rw [hmem, or_iff_left (hnone k)]
  · rintro hsatellites k ⟨-, first, rest, hcons, -⟩
    rw [hsatellites] at hcons
    cases hcons

theorem keys_exact_iff_shipped :
    let key := TransportProperties.contentTypeKey
    let p := twiceShipped none
    Reached p ∧ (keys p).Nodup ∧ key ∈ keys p ∧ p.Hides key ∧ get? p key = none ∧ "tries" ∈ keys p ∧
      ¬∀ k, k ∈ keys p ↔ (get? p k).isSome = true := by
  intro key p
  have hwritten : Turn empty { empty with properties := .ofOwner (twiceShipped none).typed } :=
    .write empty "tries" (.number 2 0)
  have hreached : Reached p :=
    .next (.next (.next (.fresh none) hwritten) (.attach _ ⟨none, none⟩)) (.attach _ ⟨some "text/xml", none⟩)
  have hhides : p.Hides key :=
    ⟨by decide, ⟨none, none⟩, [⟨some "text/xml", none⟩], rfl, rfl,
      .inl ⟨_, List.mem_singleton_self _, rfl⟩⟩
  obtain ⟨hnodup, hmem, hnone, hexact, -⟩ := hreached.keys_exact_iff
  exact ⟨hreached, hnodup, (hmem key).mpr (.inr hhides), hhides, hnone key hhides, (hmem "tries").mpr (.inl rfl),
    fun h => hexact.mp h key hhides⟩

/-- A packet whose map got a content type before an empty satellite came. -/
def shadowed : Packet :=
  { empty with properties := ⟨{ PacketProperties.empty with
      others := PropertyMap.empty.put TransportProperties.contentTypeKey (.string "text/xml") }, [⟨none, none⟩]⟩ }

theorem keys_of_shadowed : Reached shadowed ∧
    ¬(TransportProperties.contentTypeKey ∈ keys shadowed ↔
      (get? shadowed TransportProperties.contentTypeKey).isSome = true) := by
  have hwritten : Turn empty { empty with properties := .ofOwner shadowed.typed } :=
    .write empty TransportProperties.contentTypeKey (.string "text/xml")
  exact ⟨.next (.next (.fresh none) hwritten) (.attach _ ⟨none, none⟩), by decide⟩

end Packet

end SoapNode
