import SoapNode.Stage.Security

/-!
# What validation enforces

The settings demand a fresh timestamp, a token that names a user, and an assertion. Validation without
objections enforces these demands exactly where nothing that is demanded is left out: it objects to parts
that are missing from a security header and to parts that are wrong, yet not to a message without any
header, a timestamp without a date or a token without a user.
-/

namespace SoapNode.Security

open Instant (nanosPerSecond)

/-- A timestamp that bounds the age of its message: made within the age that is allowed, or not over yet. -/
def Fresh (c : SecuritySettings) (now : Instant) (t : SecurityTimestamp) : Prop :=
  (∃ text ∈ t.created, ∃ made ∈ Rfc3339.parse text,
      now.since made ≤ c.maxTimestampAge.toNat * nanosPerSecond) ∨
    ∃ text ∈ t.expires, ∃ expiry ∈ Rfc3339.parse text, expiry.isBefore now = false

/-- What the settings demand of the headers of a message and of the identity found in them. -/
structure Enforced (c : SecuritySettings) (now : Instant) (l : HeaderList) (identity : Option String) : Prop where
  timestamp : c.requireTimestamp → ∃ h ∈ SecurityHeader.ofHeaders l, ∃ t ∈ h.timestamp, Fresh c now t
  token : c.requireUsernameToken →
    ∃ h ∈ SecurityHeader.ofHeaders l, ∃ t ∈ h.token, t.username ≠ "" ∧ identity = some t.username
  saml : c.requireSaml → ∃ h ∈ SecurityHeader.ofHeaders l, h.hasSamlAssertion

/-- Nothing is left out: a header where anything is demanded, a date where a timestamp is, a user where a
token is. -/
structure Stated (c : SecuritySettings) (l : HeaderList) : Prop where
  header : c.requireTimestamp ∨ c.requireUsernameToken ∨ c.requireSaml → (SecurityHeader.ofHeaders l).isSome
  timestamp : c.requireTimestamp →
    ∀ h ∈ SecurityHeader.ofHeaders l, ∀ t ∈ h.timestamp, t.created.isSome ∨ t.expires.isSome
  token : c.requireUsernameToken → ∀ h ∈ SecurityHeader.ofHeaders l, ∀ t ∈ h.token, t.username ≠ ""

variable {c : SecuritySettings} {now : Instant} {l : HeaderList} {identity : Option String}

theorem signed_le (n : UInt64) : signed n ≤ n.toNat := by
  have h : signed n = n.toBitVec.toInt := rfl
  rw [h, BitVec.toInt_eq_toNat_cond]
  have : n.toBitVec.toNat = n.toNat := rfl
  split <;> omega

theorem span?_le {n : UInt64} {limit : Int} (h : span? n = some limit) : limit ≤ n.toNat := by
  unfold span? at h
  split at h
  · cases h
    exact signed_le n
  · cases h

/-- A creation time without objections lies within the age that is allowed. -/
theorem made_of_checkCreated {created : String} (h : checkCreated c now created = some []) :
    ∃ made ∈ Rfc3339.parse created, now.since made ≤ c.maxTimestampAge.toNat * nanosPerSecond := by
  unfold checkCreated at h
  split at h
  · cases h
  · rename_i made hmade
    refine ⟨made, hmade, ?_⟩
    obtain ⟨limit, hlimit, h⟩ := Option.bind_eq_some_iff.mp h
    have hle := span?_le hlimit
    dsimp only at h
    split at h
    · cases h
    · rename_i hage
      have : limit * (nanosPerSecond : Int) ≤ c.maxTimestampAge.toNat * nanosPerSecond :=
        Int.mul_le_mul_of_nonneg_right hle (by decide)
      omega

theorem over_of_checkExpires {expires : String} (h : checkExpires now expires = []) :
    ∃ expiry ∈ Rfc3339.parse expires, expiry.isBefore now = false := by
  unfold checkExpires at h
  split at h
  · cases h
  · rename_i expiry hexpiry
    split at h
    · cases h
    · rename_i hnot
      exact ⟨expiry, hexpiry, Bool.eq_false_iff.mpr hnot⟩

/-- A demanded timestamp without objections is there, and there are no objections to its dates. -/
theorem dates_of_checkTimestamp {t : Option SecurityTimestamp} (hc : c.requireTimestamp = true)
    (h : checkTimestamp c now t = some []) :
    ∃ t' ∈ t, (∀ text ∈ t'.created, checkCreated c now text = some []) ∧
      ∀ text ∈ t'.expires, checkExpires now text = [] := by
  rcases t with _ | ⟨created, expires⟩
  · simp [checkTimestamp, hc] at h
  · rw [checkTimestamp, hc] at h
    have hboth {objections later : List Violation} (hnone : objections ++ later = [])
        (hlater : ∀ text ∈ expires, later = checkExpires now text) :
        objections = [] ∧ ∀ text ∈ expires, checkExpires now text = [] := by
      obtain ⟨hobjections, rfl⟩ := List.append_eq_nil_iff.mp hnone
      exact ⟨hobjections, fun text htext => (hlater text htext).symm⟩
    cases created with
    | none =>
      obtain ⟨-, hexpires⟩ := hboth (Option.some.inj h) (by rintro _ rfl; rfl)
      refine ⟨_, rfl, ?_, hexpires⟩
      rintro _ ⟨⟩
    | some made =>
      obtain ⟨objections, hcreated, hrest⟩ := Option.bind_eq_some_iff.mp h
      obtain ⟨rfl, hexpires⟩ := hboth (Option.some.inj hrest) (by rintro _ rfl; rfl)
      refine ⟨_, rfl, ?_, hexpires⟩
      rintro _ ⟨⟩
      exact hcreated

theorem fresh_of_dates {t : SecurityTimestamp} (hcreated : ∀ text ∈ t.created, checkCreated c now text = some [])
    (hexpires : ∀ text ∈ t.expires, checkExpires now text = []) (given : t.created.isSome ∨ t.expires.isSome) :
    Fresh c now t := by
  rcases given with given | given
  · obtain ⟨text, htext⟩ := Option.isSome_iff_exists.mp given
    exact .inl ⟨text, htext, made_of_checkCreated (hcreated text htext)⟩
  · obtain ⟨text, htext⟩ := Option.isSome_iff_exists.mp given
    exact .inr ⟨text, htext, over_of_checkExpires (hexpires text htext)⟩

theorem given_of_fresh {t : SecurityTimestamp} (h : Fresh c now t) : t.created.isSome ∨ t.expires.isSome := by
  rcases h with ⟨text, htext, -⟩ | ⟨text, htext, -⟩
  · exact .inl (Option.isSome_of_mem htext)
  · exact .inr (Option.isSome_of_mem htext)

theorem token_of_checkToken {t : Option UsernameToken} (hc : c.requireUsernameToken = true) (h : checkToken c t = []) :
    t.isSome := by
  cases t with
  | none => simp [checkToken, hc] at h
  | some t => rfl

theorem identity?_eq {t : UsernameToken} (h : t.username ≠ "") : identity? (some t) = some t.username := by
  simp [identity?, h]

/-- Validation without objections, part by part. -/
theorem validate_passes {h : SecurityHeader} (hl : SecurityHeader.ofHeaders l = some h)
    (hv : validate c now l = some ⟨[], identity⟩) :
    checkTimestamp c now h.timestamp = some [] ∧ checkToken c h.token = [] ∧
      (c.requireSaml = true → h.hasSamlAssertion = true) ∧ identity = identity? h.token := by
  rw [validate, hl] at hv
  obtain ⟨objections, htimestamp, hv⟩ := Option.bind_eq_some_iff.mp hv
  obtain ⟨hnone, hidentity⟩ := ValidationResult.mk.inj (Option.some.inj hv)
  obtain ⟨hnone, hsaml⟩ := List.append_eq_nil_iff.mp hnone
  obtain ⟨rfl, htoken⟩ := List.append_eq_nil_iff.mp hnone
  refine ⟨htimestamp, htoken, fun hc => ?_, hidentity.symm⟩
  cases hs : h.hasSamlAssertion with
  | true => rfl
  | false => simp [hc, hs] at hsaml

theorem enforced_of_stated (hv : validate c now l = some ⟨[], identity⟩) (hs : Stated c l) :
    Enforced c now l identity where
  timestamp hc := by
    obtain ⟨h, hl⟩ := Option.isSome_iff_exists.mp (hs.header (.inl hc))
    obtain ⟨t, ht, hcreated, hexpires⟩ := dates_of_checkTimestamp hc (validate_passes hl hv).1
    exact ⟨h, hl, t, ht, fresh_of_dates hcreated hexpires (hs.timestamp hc h hl t ht)⟩
  token hc := by
    obtain ⟨h, hl⟩ := Option.isSome_iff_exists.mp (hs.header (.inr (.inl hc)))
    obtain ⟨-, htoken, -, hidentity⟩ := validate_passes hl hv
    obtain ⟨t, ht⟩ := Option.isSome_iff_exists.mp (token_of_checkToken hc htoken)
    have hname := hs.token hc h hl t ht
    exact ⟨h, hl, t, ht, hname, by rw [hidentity, ht, identity?_eq hname]⟩
  saml hc := by
    obtain ⟨h, hl⟩ := Option.isSome_iff_exists.mp (hs.header (.inr (.inr hc)))
    exact ⟨h, hl, (validate_passes hl hv).2.2.1 hc⟩

theorem stated_of_enforced (he : Enforced c now l identity) : Stated c l where
  header demanded := by
    rcases demanded with hc | hc | hc
    · obtain ⟨h, hl, -⟩ := he.timestamp hc
      exact Option.isSome_of_mem hl
    · obtain ⟨h, hl, -⟩ := he.token hc
      exact Option.isSome_of_mem hl
    · obtain ⟨h, hl, -⟩ := he.saml hc
      exact Option.isSome_of_mem hl
  timestamp hc h hl t ht := by
    obtain ⟨h', hl', t', ht', hfresh⟩ := he.timestamp hc
    obtain rfl := Option.mem_unique hl hl'
    obtain rfl := Option.mem_unique ht ht'
    exact given_of_fresh hfresh
  token hc h hl t ht := by
    obtain ⟨h', hl', t', ht', hname, -⟩ := he.token hc
    obtain rfl := Option.mem_unique hl hl'
    obtain rfl := Option.mem_unique ht ht'
    exact hname

/-- What the server's stage lets through has passed validation, and carries the identity that was found. -/
theorem validated_of_serverRequest {World : Type} {version : Option SoapVersion} {w : Wiring} {p p' : Packet}
    {s : SiteStore World} {m : Message} {next : TubeId} (hm : p.message = some m)
    (h : serverRequest version c w p s = .invoke next p') :
    ∃ identity, validate c s.world.clock m.headers = some ⟨[], identity⟩ ∧
      storeIdentity c p identity = .ok p' := by
  simp only [serverRequest, hm] at h
  split at h
  · cases h
  rename_i result hv
  split at h
  · cases h
  rename_i hnone
  split at h
  · rename_i stored hstored
    obtain ⟨violations, identity⟩ := result
    obtain rfl : violations = [] := by simpa using hnone
    have hp : stored = p' := by
      unfold Wiring.invokeNext at h
      split at h
      · exact (NextAction.invoke.inj h).2
      · cases h
    exact ⟨identity, hv, hp ▸ hstored⟩
  · cases h

/-- Validation without objections enforces the demands if and only if nothing demanded is left out, and so
does the server's stage for the messages that it lets through. -/
theorem enforced_iff_stated (c : SecuritySettings) :
    (∀ now l identity, validate c now l = some ⟨[], identity⟩ → (Enforced c now l identity ↔ Stated c l)) ∧
    ∀ (World : Type) (version : Option SoapVersion) (w : Wiring) (p p' : Packet) (s : SiteStore World) (m : Message)
      (next : TubeId), p.message = some m → serverRequest version c w p s = .invoke next p' →
        ∃ identity, storeIdentity c p identity = .ok p' ∧
          (Enforced c s.world.clock m.headers identity ↔ Stated c m.headers) := by
  have decided {now l identity} (hv : validate c now l = some ⟨[], identity⟩) :
      Enforced c now l identity ↔ Stated c l := ⟨stated_of_enforced, enforced_of_stated hv⟩
  refine ⟨fun _ _ _ => decided, fun _ _ _ _ _ _ _ _ hm h => ?_⟩
  obtain ⟨identity, hv, hp⟩ := validated_of_serverRequest hm h
  exact ⟨identity, hp, decided hv⟩

section Requests

open SecurityHeader (wsseElement wsuElement)

def secured (parts : List Element) : HeaderList := .ofBlocks [⟨parts.foldl .push (wsseElement "Security")⟩]

def requestOf (l : HeaderList) : Packet := .ofMessage { Message.empty (some .v11) with headers := l }

def demanding : SecuritySettings where
  enabled := true
  requireTimestamp := true
  requireUsernameToken := true
  requireSaml := true

/-- Two minutes after the start of 2024. -/
def early2024 : Instant := ⟨1704067320, 0⟩

def servedAt (t : Instant) : SiteStore Unit := ⟨[], .new (.new .soap11) t ()⟩

def fullHeaders : HeaderList :=
  secured [(wsuElement "Timestamp").push ((wsuElement "Created").pushText "2024-01-01T00:00:00Z"),
    (wsseElement "UsernameToken").push ((wsseElement "Username").pushText "alice"),
    .named ⟨Wss.samlUri, "Assertion"⟩]

theorem enforced_iff_stated_full :
    Enforced demanding early2024 fullHeaders (some "alice") ∧
      ∃ identity, storeIdentity demanding (requestOf fullHeaders) identity = .ok (requestOf fullHeaders) ∧
        Enforced demanding early2024 fullHeaders identity := by
  have hstated : Stated demanding fullHeaders := ⟨by decide +kernel, by decide +kernel, by decide +kernel⟩
  have hv : validate demanding early2024 fullHeaders = some ⟨[], some "alice"⟩ := by decide +kernel
  have hinvoked : serverRequest (some .v11) demanding ⟨1, [0], []⟩ (requestOf fullHeaders) (servedAt early2024) =
      .invoke 0 (requestOf fullHeaders) := by
    have hv : validate demanding (servedAt early2024).world.clock fullHeaders = some ⟨[], some "alice"⟩ := hv
    simp only [serverRequest, requestOf, Packet.ofMessage, Packet.ofMessage?, hv]
    rfl
  obtain ⟨identity, hstored, hiff⟩ :=
    (enforced_iff_stated demanding).2 Unit (some .v11) ⟨1, [0], []⟩ _ _ (servedAt early2024) _ 0 rfl hinvoked
  exact ⟨((enforced_iff_stated demanding).1 early2024 fullHeaders _ hv).mpr hstated, identity,
    hstored, hiff.mpr hstated⟩

/-- No header at all, a timestamp without a date, a token without a user: each passes for what is demanded. -/
theorem validate_passes_omitted :
    (validate demanding early2024 .empty = some ⟨[], none⟩ ∧ ¬ Enforced demanding early2024 .empty none) ∧
    (validate { requireTimestamp := true } early2024 (secured [wsuElement "Timestamp"]) = some ⟨[], none⟩ ∧
      ¬ Enforced { requireTimestamp := true } early2024 (secured [wsuElement "Timestamp"]) none) ∧
    (validate { requireUsernameToken := true } early2024
      (secured [wsseElement "UsernameToken"]) = some ⟨[], none⟩ ∧
      ¬ Enforced { requireUsernameToken := true } early2024 (secured [wsseElement "UsernameToken"]) none) := by
  refine ⟨⟨by decide +kernel, fun h => ?_⟩, ⟨by decide +kernel, fun h => ?_⟩,
    by decide +kernel, fun h => ?_⟩
  · obtain ⟨_, hl, -⟩ := h.saml rfl
    cases hl
  · have hgiven := (stated_of_enforced h).timestamp rfl
    revert hgiven
    decide +kernel
  · have hname := (stated_of_enforced h).token rfl
    revert hname
    decide +kernel

end Requests

end SoapNode.Security
