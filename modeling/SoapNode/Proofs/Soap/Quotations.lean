import SoapNode.Proofs.Message.Acceptance
import SoapNode.Proofs.Message.Taking
import SoapNode.Proofs.Soap.EntityScan
import SoapNode.Proofs.Xml.Segments
import SoapNode.Stage.Security

/-!
# Declarations that are only quoted

The scan reads a document as raw text, so it takes what is quoted inside a token for a declaration. A
document whose tokens declare nothing passes the scan unless one of them quotes what the scan looks for:
tokens end with a closing bracket, so nothing that it finds goes from one into the next.
-/

namespace SoapNode

namespace EntityScan

variable {word text rest : List Char} {c : Char}

/-! ### Texts that are put together -/

theorem suspect_cons : Suspect (c :: text) ↔ Opens (c :: text) ∨ Suspect text := by
  simp only [Suspect, Opens, List.suffix_cons_iff]
  constructor
  · rintro ⟨rest, heq | hrest, h⟩
    · exact .inl ⟨rest, heq.symm, h⟩
    · exact .inr ⟨rest, hrest, h⟩
  · rintro (⟨rest, heq, h⟩ | ⟨rest, hrest, h⟩)
    · exact ⟨rest, .inl heq.symm, h⟩
    · exact ⟨rest, .inr hrest, h⟩

theorem not_suspect_nil : ¬Suspect [] := by
  rintro ⟨rest, hrest, -⟩
  cases List.suffix_nil.mp hrest

theorem suspect_cons_of_ne (h : c ≠ '<') : Suspect (c :: text) ↔ Suspect text := by
  rw [suspect_cons, or_iff_right]
  rintro ⟨rest, heq, -⟩
  exact h (List.cons.inj heq).1

theorem suspect_append_of_not_mem {plain : List Char} (h : '<' ∉ plain) :
    Suspect (plain ++ text) ↔ Suspect text := by
  induction plain with
  | nil => rfl
  | cons c plain ih =>
    rw [List.mem_cons, not_or] at h
    rw [List.cons_append, suspect_cons_of_ne (Ne.symm h.1), ih h.2]

theorem takeWhile_closed (front rest : List Char) :
    (front ++ '>' :: rest).takeWhile (· != '>') = front.takeWhile (· != '>') := by
  induction front with
  | nil => rfl
  | cons c front ih =>
    rw [List.cons_append, List.takeWhile_cons, List.takeWhile_cons, ih]

theorem opens_cons_cons {d : Char} :
    Opens (c :: d :: text) ↔ c = '<' ∧ d = '!' ∧ Objectionable (text.takeWhile (· != '>')) := by
  constructor
  · rintro ⟨_, heq, h⟩
    cases heq
    exact ⟨rfl, rfl, h⟩
  · rintro ⟨rfl, rfl, h⟩
    exact ⟨text, rfl, h⟩

/-- A declaration ends at the first closing bracket, whatever stands behind it. -/
theorem opens_closed_iff (front rest : List Char) : Opens (front ++ '>' :: rest) ↔ Opens (front ++ ['>']) := by
  match front with
  | [] | [_] => simp [Opens]
  | c :: d :: front =>
    rw [List.cons_append, List.cons_append, List.cons_append, List.cons_append, opens_cons_cons,
      opens_cons_cons, takeWhile_closed, takeWhile_closed]

theorem suspect_closed_iff (front rest : List Char) :
    Suspect (front ++ '>' :: rest) ↔ Suspect (front ++ ['>']) ∨ Suspect rest := by
  induction front with
  | nil =>
    rw [List.nil_append, List.nil_append, suspect_cons_of_ne (by decide), suspect_cons_of_ne (by decide),
      or_iff_right not_suspect_nil]
  | cons c front ih =>
    rw [List.cons_append, List.cons_append, suspect_cons, suspect_cons, ih, ← List.cons_append,
      ← List.cons_append, opens_closed_iff, or_assoc]

theorem not_objectionable_of_exempt {exempt : String} {declaration : List Char} (hexempt : exempt ∈ ["--", "[CDATA["])
    (h : exempt.toList <+: declaration) : ¬Objectionable declaration := by
  have hapart : ∀ word ∈ ["DOCTYPE", "doctype", "ENTITY", "entity"], ∀ exempt ∈ ["--", "[CDATA["],
      ¬word.toList <+: exempt.toList ∧ ¬exempt.toList <+: word.toList := by decide
  rintro (⟨known, hfirst⟩ | ⟨-, -, hcomment, hsection⟩)
  · rcases List.prefix_or_prefix_of_prefix hfirst h with hword | hword
    · exact (hapart _ known _ hexempt).1 hword
    · exact (hapart _ known _ hexempt).2 hword
  · have hneither : ∀ exempt ∈ ["--", "[CDATA["], ¬exempt.toList <+: declaration :=
      List.forall_mem_cons.mpr ⟨hcomment, List.forall_mem_singleton.mpr hsection⟩
    exact hneither _ hexempt h

end EntityScan

/-! ### Where tokens end -/

namespace Token

variable {bytes passed content rest : Bytes} {t : Token}

theorem cut_eq {ended : Bytes → Bool} (h : cut ended passed bytes = some (content, rest)) :
    passed.reverse ++ bytes = content ++ greaterThan :: rest := by
  induction bytes generalizing passed with
  | nil => cases h
  | cons b bytes ih =>
    rw [cut] at h
    split at h
    · rename_i hend
      rw [Bool.and_eq_true, beq_iff_eq] at hend
      cases h
      rw [hend.1]
    · rw [← ih h, List.reverse_cons, List.append_assoc, List.singleton_append]

theorem cutTag_eq {quote : Option UInt8} (h : cutTag quote passed bytes = some (content, rest)) :
    passed.reverse ++ bytes = content ++ greaterThan :: rest := by
  induction bytes generalizing quote passed with
  | nil => cases h
  | cons b bytes ih =>
    have hfurther : ∀ {quote}, cutTag quote (b :: passed) bytes = some (content, rest) →
        passed.reverse ++ b :: bytes = content ++ greaterThan :: rest := by
      intro quote h
      rw [← ih h, List.reverse_cons, List.append_assoc, List.singleton_append]
    cases quote with
    | some q => exact hfurther (by simpa only [cutTag] using h)
    | none =>
      simp only [cutTag] at h
      split at h
      · rename_i hend
        cases h
        rw [eq_of_beq hend]
      · exact hfurther h

/-- A comment or a CDATA section, without its opening `<!` and its last bracket. -/
def Exempt (content : Bytes) : Prop := ∃ opening ∈ ["--", "[CDATA["], ascii opening <+: content

theorem exempt_of_declaration (h : declaration bytes = .ok (t, rest)) (ht : t ≠ .doctype) :
    ∃ content, bytes = content ++ greaterThan :: rest ∧ Exempt content := by
  cases bytes with
  | nil => cases h
  | cons b bytes =>
    rw [declaration] at h
    split at h
    · obtain ⟨content, hcut, hmake⟩ := finish_eq_ok_iff.mp h
      rw [ofCdata] at hmake
      split at hmake
      · rename_i hopening
        exact ⟨content, cut_eq hcut, "[CDATA[", by decide, List.isPrefixOf_iff_prefix.mp hopening⟩
      · cases hmake
    · split at h
      · obtain ⟨content, hcut, hmake⟩ := finish_eq_ok_iff.mp h
        rw [ofComment] at hmake
        split at hmake
        · rename_i hopening
          exact ⟨content, cut_eq hcut, "--", by decide, List.isPrefixOf_iff_prefix.mp hopening⟩
        · cases hmake
      · split at h
        · obtain ⟨content, -, hmake⟩ := finish_eq_ok_iff.mp h
          rw [ofDoctype] at hmake
          split at hmake
          · cases hmake
          · split at hmake
            · cases hmake
            · exact absurd (Except.ok.inj hmake).symm ht
        · cases h

/-- Markup ends with a closing bracket, and what of it opens as a declaration is a comment or a CDATA section. -/
theorem closed_of_markup (h : markup bytes = .ok (t, rest)) (ht : t ≠ .doctype) :
    ∃ front, bytes = front ++ greaterThan :: rest ∧ ∀ content, front = 33 :: content → Exempt content := by
  cases bytes with
  | nil => cases h
  | cons b bytes =>
    rw [markup] at h
    split at h
    · obtain ⟨content, rfl, hexempt⟩ := exempt_of_declaration h ht
      refine ⟨b :: content, rfl, ?_⟩
      rintro _ ⟨⟩
      exact hexempt
    · rename_i hmark
      -- no other kind of markup begins with an exclamation mark
      have hplain : ∀ {front}, b :: bytes = front ++ greaterThan :: rest → ∀ content, front = 33 :: content →
          Exempt content := by
        rintro front hparts content rfl
        rw [(List.cons.inj hparts).1] at hmark
        exact absurd rfl hmark
      split at h
      · rename_i hquestion
        obtain ⟨content, hcut, -⟩ := finish_eq_ok_iff.mp h
        have hparts := cut_eq hcut
        rw [List.reverse_singleton, List.singleton_append, ← eq_of_beq hquestion] at hparts
        exact ⟨content, hparts, hplain hparts⟩
      · split at h
        · obtain ⟨content, hcut, -⟩ := finish_eq_ok_iff.mp h
          have hparts : b :: bytes = (b :: content) ++ greaterThan :: rest := congrArg (b :: ·) (cutTag_eq hcut)
          exact ⟨b :: content, hparts, hplain hparts⟩
        · obtain ⟨content, hcut, -⟩ := finish_eq_ok_iff.mp h
          exact ⟨content, cutTag_eq hcut, hplain (cutTag_eq hcut)⟩

end Token

namespace EntityScan

open Token Utf8

variable {t : Token} {bytes rest : Bytes} {cs document : List Char}

theorem plain_of_ne {c : Char} (hc : c ≠ '<') : ∀ b ∈ String.utf8EncodeChar c, (b != lessThan) = true := by
  intro b hb
  rw [bne_iff_ne]
  rintro rfl
  exact hc (eq_of_ofNat_mem (by decide) hb)

theorem dropWhile_encodeChars (cs : List Char) :
    (encodeChars cs).dropWhile (· != lessThan) = encodeChars (cs.dropWhile (· != '<')) := by
  induction cs with
  | nil => rfl
  | cons c cs ih =>
    by_cases hc : c = '<'
    · subst hc
      rfl
    · have hpassed : (c != '<') = true := bne_iff_ne.mpr hc
      rw [encodeChars_cons, List.dropWhile_append_of_pos (plain_of_ne hc), ih, List.dropWhile_cons, if_pos hpassed]

/-- No declaration opens where a token opens that is not one. -/
theorem not_opens_of_exempt {front : List Char}
    (hexempt : ∀ content, encodeChars front = 33 :: content → Exempt content) :
    ¬Opens ('<' :: (front ++ ['>'])) := by
  cases front with
  | nil => simp [opens_cons_cons]
  | cons c front =>
    rw [List.cons_append, opens_cons_cons]
    rintro ⟨-, rfl, hobjectionable⟩
    obtain ⟨opening, hopening, more, hbytes⟩ := hexempt _ (encodeChars_cons_ascii front (by decide))
    obtain ⟨behind, rfl, -⟩ := exists_of_encodeChars_append hbytes.symm
    have hwithin : ∀ opening ∈ ["--", "[CDATA["], opening.toList.all (· != '>') = true := by decide
    refine not_objectionable_of_exempt hopening ((prefix_takeWhile_iff (hwithin opening hopening)).mpr ?_)
      hobjectionable
    rw [List.append_assoc]
    exact List.prefix_append _ _

/-- A text is cut where its first token ends. What the scan objects to is on either side, and not where
the token opens. -/
theorem suspect_of_next (h : next (encodeChars cs) = .ok (some (t, rest))) (ht : t ≠ .doctype) :
    ∃ raw cs', cs = raw ++ cs' ∧ rest = encodeChars cs' ∧ (Suspect cs ↔ Suspect raw.tail ∨ Suspect cs') := by
  cases cs with
  | nil => cases h
  | cons c cs =>
    by_cases hc : c = '<'
    · subst hc
      rw [encodeChars_cons_ascii cs (by decide)] at h
      obtain ⟨front, hparts, hexempt⟩ := closed_of_markup (next_markup.mp h) ht
      obtain ⟨front, behind, rfl, rfl, rfl⟩ := exists_of_encodeChars_eq (c := '>') (by decide) hparts
      refine ⟨'<' :: (front ++ ['>']), behind, by simp, rfl, ?_⟩
      rw [← List.cons_append, suspect_closed_iff, List.cons_append, suspect_cons,
        or_iff_right (not_opens_of_exempt hexempt)]
      rfl
    · obtain ⟨lead, more, hlead, -⟩ := head_utf8EncodeChar c []
      have hpassed : (lead != lessThan) = true := plain_of_ne hc lead (by simp [hlead])
      have hbytes : encodeChars (c :: cs) = lead :: (more ++ encodeChars cs) := by
        rw [encodeChars_cons, hlead]
        rfl
      have hrest : (more ++ encodeChars cs).dropWhile (· != lessThan) =
          encodeChars ((c :: cs).dropWhile (· != '<')) := by
        rw [← dropWhile_encodeChars, hbytes, List.dropWhile_cons, if_pos hpassed]
      rw [hbytes, next, if_neg (by simpa using hpassed)] at h
      cases h
      have hplain : '<' ∉ (c :: cs).takeWhile (· != '<') := by
        intro hmem
        simpa using List.mem_takeWhile_imp hmem
      have hwhole : c :: cs = (c :: cs).takeWhile (· != '<') ++ (c :: cs).dropWhile (· != '<') :=
        List.takeWhile_append_dropWhile.symm
      refine ⟨_, _, hwhole, hrest, ?_⟩
      rw [or_iff_right (not_suspect_of_quiet (quiet_of_not_mem fun hmem => hplain (List.mem_of_mem_tail hmem)))]
      conv_lhs => rw [hwhole, suspect_append_of_not_mem hplain]

/-- Some token of the bytes has, behind its first character, what the scan objects to. -/
inductive Quoted : Bytes → Prop where
  | here {bytes rest : Bytes} {t : Token} {raw : List Char} (first : next bytes = .ok (some (t, rest)))
      (written : bytes = encodeChars raw ++ rest) (quotes : Suspect raw.tail) : Quoted bytes
  | behind {bytes rest : Bytes} {t : Token} (first : next bytes = .ok (some (t, rest))) (further : Quoted rest) :
    Quoted bytes

theorem suspect_iff_quoted (h : Consists (· ≠ .doctype) bytes) (hbytes : bytes = encodeChars cs) :
    Suspect cs ↔ Quoted bytes := by
  induction h generalizing cs with
  | nil =>
    rw [encodeChars_eq_nil_iff.mp hbytes.symm]
    refine iff_of_false not_suspect_nil ?_
    rintro (⟨first, -, -⟩ | ⟨first, -⟩) <;> cases first
  | cons first kind _ ih =>
    subst hbytes
    obtain ⟨raw, cs', rfl, rfl, hparts⟩ := suspect_of_next first kind
    rw [hparts, ih rfl]
    constructor
    · rintro (hquotes | hfurther)
      · exact .here first (encodeChars_append raw cs') hquotes
      · exact .behind first hfurther
    · rintro (⟨first', hwritten, hquotes⟩ | ⟨first', hfurther⟩)
      · cases first.symm.trans first'
        rw [encodeChars_append, List.append_cancel_right_eq] at hwritten
        exact .inl (encodeChars_injective hwritten ▸ hquotes)
      · cases first.symm.trans first'
        exact .inr hfurther

theorem suspect_dropByteOrderMark (document : List Char) :
    ∃ cs, dropByteOrderMark (encodeChars document) = encodeChars cs ∧ (Suspect document ↔ Suspect cs) := by
  unfold dropByteOrderMark
  split
  · rename_i hmarked
    obtain ⟨cs, rfl, hrest⟩ := exists_of_encodeChars_eq_append (c := '\uFEFF') hmarked
    exact ⟨cs, hrest, suspect_cons_of_ne (by decide)⟩
  · exact ⟨document, rfl, Iff.rfl⟩

theorem scan_iff_quoted (h : Consists (· ≠ .doctype) (dropByteOrderMark (encodeChars document))) :
    scan document = .ok () ↔ ¬Quoted (dropByteOrderMark (encodeChars document)) := by
  obtain ⟨cs, hbytes, hsuspect⟩ := suspect_dropByteOrderMark document
  rw [scan_eq_ok_iff, hsuspect, suspect_iff_quoted h hbytes]

end EntityScan

namespace Codec

variable {k : BindingKind} {v : SoapVersion} {bytes : Bytes} {document : List Char}

/-- With this content type, or with some other one, the bytes are answered with a fault that tells of violations. -/
def Alarms (k : BindingKind) (bytes : Bytes) : Prop :=
  ∃ contentType v violations, decode k bytes contentType = .error (.protocol (Security.violationFault v violations))

theorem versionMismatch_ne_violationFault (v w : SoapVersion) (violations : List Violation) :
    ProtocolFault.versionMismatch v ≠ Security.violationFault w violations := by
  intro h
  cases congrArg ProtocolFault.detail h

theorem parse_ne_protocol (bytes : Bytes) (f : ProtocolFault) : Envelope.parse bytes ≠ .error (.protocol f) := by
  intro h
  rcases error_of_bind h with h | ⟨root, -, h⟩
  · exact Message.mapError_ne_error nofun _ h
  · exact Message.mapError_ne_error nofun _ h

theorem checkType_ne_protocol (accepts : String → Bool) (contentType : Option String) (f : ProtocolFault) :
    checkType accepts contentType ≠ .error (.protocol f) := by
  rw [checkType.eq_def]
  split
  · exact nofun
  · split <;> exact nofun

theorem decodeSoap_ne_violationFault (hpasses : rejectEntities v bytes = .ok ())
    (contentType : Option String) (w : SoapVersion) (violations : List Violation) :
    decodeSoap v bytes contentType ≠ .error (.protocol (Security.violationFault w violations)) := by
  intro h
  rcases error_of_bind h with h | ⟨-, -, h⟩
  · exact checkType_ne_protocol _ _ _ h
  rcases error_of_bind h with h | ⟨-, -, h⟩
  · cases hpasses.symm.trans h
  rcases error_of_bind h with h | ⟨root, -, h⟩
  · exact Message.mapError_ne_error nofun _ h
  cases root with
  | none => cases h
  | some root =>
    dsimp only at h
    split at h
    · cases h
    · split at h
      · exact versionMismatch_ne_violationFault _ _ _ (RuntimeError.protocol.inj (Except.error.inj h))
      · exact parse_ne_protocol _ _ h

theorem decodeXml_ne_protocol (hpasses : rejectEntities .v11 bytes = .ok ()) (contentType : Option String)
    (f : ProtocolFault) : decodeXml bytes contentType ≠ .error (.protocol f) := by
  intro h
  rcases error_of_bind h with h | ⟨-, -, h⟩
  · exact checkType_ne_protocol _ _ _ h
  rcases error_of_bind h with h | ⟨-, -, h⟩
  · cases hpasses.symm.trans h
  dsimp only at h
  split at h <;> cases h

theorem rejectEntities_of_objection {violation : Violation}
    (hscan : EntityScan.scan document = .error violation) (v : SoapVersion) :
    rejectEntities v (Utf8.encodeChars document) = .error (.protocol (Security.violationFault v [violation])) := by
  rw [rejectEntities, Utf8.decodeChars_encodeChars]
  simp only [mapError_ok, bind, Except.bind, hscan]
  rfl

/-- Nothing but the scan makes a codec tell of violations. -/
theorem alarms_iff_scan : Alarms k (Utf8.encodeChars document) ↔ EntityScan.scan document ≠ .ok () := by
  constructor
  · rintro ⟨contentType, w, violations, h⟩ hscan
    have hpasses := rejectEntities_of_scan (Utf8.decodeChars_encodeChars document) hscan
    rcases k.bare_or_soap with rfl | ⟨v, rfl⟩
    · exact decodeXml_ne_protocol (hpasses .v11) contentType _ h
    · rw [decode, BindingKind.version?_ofVersion] at h
      exact decodeSoap_ne_violationFault (hpasses v) contentType w violations h
  · intro hscan
    cases hscanned : EntityScan.scan document with
    | ok => exact absurd hscanned hscan
    | error violation =>
      have hrejects := rejectEntities_of_objection hscanned
      rcases k.bare_or_soap with rfl | ⟨v, rfl⟩
      · refine ⟨none, .v11, [violation], ?_⟩
        simp only [decode, BindingKind.version?, decodeXml, checkType, hrejects, bind, Except.bind]
      · refine ⟨none, v, [violation], ?_⟩
        simp only [decode, BindingKind.version?_ofVersion, decodeSoap, checkType, hrejects, bind, Except.bind]

/-- Of the documents whose tokens declare nothing, the scan refuses just those in which a token quotes a
declaration behind its first character. For these, and for no others of them, every codec tells of violations. -/
theorem alarms_iff_quoted (document : List Char)
    (hundeclared : Token.Consists (· ≠ .doctype) (dropByteOrderMark (Utf8.encodeChars document))) :
    (EntityScan.scan document = .ok () ↔ ¬EntityScan.Quoted (dropByteOrderMark (Utf8.encodeChars document))) ∧
      ∀ k, Alarms k (Utf8.encodeChars document) ↔
        EntityScan.Quoted (dropByteOrderMark (Utf8.encodeChars document)) := by
  have hscan := EntityScan.scan_iff_quoted hundeclared
  refine ⟨hscan, fun k => ?_⟩
  rw [alarms_iff_scan, ne_eq, hscan, not_not]

/-- The opening of a declaration and the words that go with one do no harm where they are apart. -/
theorem alarms_iff_quoted_words :
    let document := "<a b='PUBLIC'><!-- SYSTEM --><![CDATA[<!DOC]]></a>".toList
    (∃ e, Element.parse (Utf8.encodeChars document) = .ok e) ∧ EntityScan.scan document = .ok () ∧
      ¬EntityScan.Quoted (dropByteOrderMark (Utf8.encodeChars document)) ∧
      ∀ k, ¬Alarms k (Utf8.encodeChars document) := by
  intro document
  have hundeclared : Token.Consists (· ≠ .doctype) (dropByteOrderMark (Utf8.encodeChars document)) := by
    have htag : Token.next (Utf8.encodeChars document) =
        .ok (some (.startTag (Token.ascii "a b='PUBLIC'"), Token.ascii "<!-- SYSTEM --><![CDATA[<!DOC]]></a>")) := by
      decide
    have hcomment : Token.next (Token.ascii "<!-- SYSTEM --><![CDATA[<!DOC]]></a>") =
        .ok (some (.comment, Token.ascii "<![CDATA[<!DOC]]></a>")) := by decide
    have hsection : Token.next (Token.ascii "<![CDATA[<!DOC]]></a>") =
        .ok (some (.cdata (Token.ascii "<!DOC"), Token.ascii "</a>")) := by
      decide
    have hend : Token.next (Token.ascii "</a>") = .ok (some (.endTag (Token.ascii "a"), [])) := by decide
    exact .cons htag nofun (.cons hcomment nofun (.cons hsection nofun (.cons hend nofun .nil)))
  have hparse : Element.parse (Utf8.encodeChars document) =
      .ok (((Element.named ⟨"", "a"⟩).setAttribute (.unqualified "b") "PUBLIC").pushText "<!DOC") := by
    decide +kernel
  have hscan : EntityScan.scan document = .ok () := by decide
  obtain ⟨hpasses, halarms⟩ := alarms_iff_quoted document hundeclared
  exact ⟨⟨_, hparse⟩, hscan, hpasses.mp hscan, fun k => mt (halarms k).mp (hpasses.mp hscan)⟩

/-- A comment that holds a declaration sets off an alarm, although the document can be read and declares nothing. -/
theorem alarms_of_comment :
    let document := "<a><!-- <!x SYSTEM --></a>".toList
    Element.parse (Utf8.encodeChars document) = .ok (Element.named ⟨"", "a"⟩) ∧
      Token.Consists (· ≠ .doctype) (dropByteOrderMark (Utf8.encodeChars document)) ∧
      EntityScan.scan document = .error ⟨.externalEntityDetected, "External entity references are not allowed"⟩ ∧
      ∀ k, Alarms k (Utf8.encodeChars document) := by
  intro document
  have hscan : EntityScan.scan document = .error ⟨.externalEntityDetected,
    "External entity references are not allowed"⟩ := by decide
  refine ⟨by decide +kernel, .cons rfl nofun (.cons rfl nofun (.cons rfl nofun .nil)), hscan,
    fun k => alarms_iff_scan.mpr ?_⟩
  rw [hscan]
  exact nofun

end Codec

end SoapNode
