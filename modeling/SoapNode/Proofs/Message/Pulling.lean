import SoapNode.Proofs.Message.Coherence

/-!
# How far a source is pulled

A source is read piece by piece until the start tag of its element is complete, and the limit is looked at
before each read, not behind it. So no read begins beyond the limit, however often the message is asked. A
source that always fills a piece stops at the limit; one that hands out less may have the last of its reads
begin below the limit and end beyond it.
-/

namespace SoapNode

variable {pulled piece : Bytes} {s t : Source} {room : Nat}

namespace Source

/-- The source hands out as much as is asked for, until it ends. -/
def Fills (room : Nat) (s : Source) : Prop := ∀ p ∈ s.pieces, room ≤ p

theorem length_of_read (h : s.read room = .ok (piece, t)) : piece.length ≤ room := by
  unfold read at h
  split at h
  · split at h
    · cases h
    · cases h
      exact Nat.zero_le room
  · cases h
    refine (List.length_take_le _ _).trans ?_
    split <;> omega

theorem Fills.read (hfills : s.Fills room) (h : s.read room = .ok (piece, t)) :
    (piece.length = room ∨ t.rest = []) ∧ t.Fills room := by
  obtain ⟨rest, pieces, breaks⟩ := s
  cases rest with
  | nil =>
    rw [Source.read] at h
    dsimp only at h
    split at h <;> cases h
    exact ⟨.inr rfl, hfills⟩
  | cons b rest =>
    have hread : Source.read ⟨b :: rest, pieces, breaks⟩ room =
        .ok ((b :: rest).take room, ⟨(b :: rest).drop room, pieces.tail, breaks⟩) := by
      cases pieces with
      | nil => rfl
      | cons p ps =>
        have hp : room ≤ p := hfills p List.mem_cons_self
        have hsize : min room (max 1 p) = room := by omega
        simp only [Source.read, hsize]
    rw [hread] at h
    cases h
    refine ⟨?_, fun p hp => hfills p (List.mem_of_mem_tail hp)⟩
    rw [List.length_take, List.drop_eq_nil_iff]
    omega

/-- At the end nothing is left that could change. -/
theorem eq_of_read_nil {room : Nat} (hroom : 0 < room) (h : s.read room = .ok ([], t)) : t = s := by
  have hended := ended_of_read hroom h
  simp only [read, hended] at h
  split at h
  · cases h
  · cases h
    rfl

end Source

/-! ### One look at a source -/

/-- Sniffing again changes neither what is found nor how far the source is read. -/
theorem sniffSource_again (pulled : Bytes) (s : Source) :
    sniffSource (sniffSource pulled s).2.1 (sniffSource pulled s).2.2 = sniffSource pulled s := by
  fun_induction sniffSource pulled s with
  | case1 pulled s e hpart => rw [sniffSource, hpart]
  | case2 pulled s q hpart => rw [sniffSource, hpart]
  | case3 pulled s hpart hlimit =>
    rw [sniffSource, hpart]
    exact if_pos hlimit
  | case4 pulled s hpart hlimit e hread =>
    rw [sniffSource, hpart]
    dsimp only
    rw [if_neg hlimit]
    split <;> simp_all
  | case5 pulled s hpart hlimit s' hread =>
    obtain rfl := Source.eq_of_read_nil (by decide) hread
    rw [sniffSource, hpart]
    dsimp only
    rw [if_neg hlimit]
    split <;> simp_all
  | case6 pulled s hpart hlimit b piece s' hread ih => exact ih

/-- What is not settled by more bytes was not settled by fewer. -/
theorem sniffPart_eq_none_of_append {a b : Bytes} (h : sniffPart (a ++ b) = .ok none) : sniffPart a = .ok none := by
  rw [sniffPart_eq_none_iff] at h ⊢
  by_contra hsettled
  rcases dropByteOrderMark_append a b with hdrop | ⟨hnothing, -⟩
  · rw [hdrop, (Sniff.look_append _ b).resolve_left hsettled] at h
    exact hsettled h
  · exact hsettled (.inl hnothing)

theorem sniffSource_of_read {b : UInt8} (hpart : sniffPart pulled = .ok none) (hbelow : pulled.length < sniffLimit)
    (hread : s.read sniffPiece = .ok (b :: piece, t)) :
    sniffSource pulled s = sniffSource (pulled ++ b :: piece) t := by
  rw [sniffSource, hpart]
  dsimp only
  rw [if_neg (Nat.not_le.mpr hbelow)]
  split <;> simp_all

theorem length_le_sniffSource (pulled : Bytes) (s : Source) : pulled.length ≤ (sniffSource pulled s).2.1.length := by
  fun_induction sniffSource pulled s with
  | case6 pulled s _ _ b piece s' _ ih =>
    rw [List.length_append] at ih
    omega
  | _ => exact Nat.le_refl _

theorem length_sniffSource_lt (h : pulled.length < sniffLimit + sniffPiece) :
    (sniffSource pulled s).2.1.length < sniffLimit + sniffPiece := by
  fun_induction sniffSource pulled s with
  | case6 pulled s _ hlimit b piece s' hread ih =>
    have hpiece := Source.length_of_read hread
    apply ih
    rw [List.length_append]
    omega
  | _ => exact h

/-- While a source is sniffed of which these bytes were pulled, a read begins below the limit and ends beyond it. -/
inductive Oversteps : Bytes → Source → Prop where
  | here {pulled piece : Bytes} {s t : Source} (undecided : sniffPart pulled = .ok none)
      (below : pulled.length < sniffLimit)
      (read : s.read sniffPiece = .ok (piece, t)) (beyond : sniffLimit < (pulled ++ piece).length) : Oversteps pulled s
  | later {pulled piece : Bytes} {s t : Source} (read : s.read sniffPiece = .ok (piece, t))
      (further : Oversteps (pulled ++ piece) t) : Oversteps pulled s

theorem Oversteps.undecided (h : Oversteps pulled s) : sniffPart pulled = .ok none ∧ pulled.length < sniffLimit := by
  induction h with
  | here undecided below => exact ⟨undecided, below⟩
  | later _ _ ih =>
    rw [List.length_append] at ih
    exact ⟨sniffPart_eq_none_of_append ih.1, by omega⟩

theorem Oversteps.beyond (h : Oversteps pulled s) : sniffLimit < (sniffSource pulled s).2.1.length := by
  induction h with
  | @here pulled piece s t undecided below read beyond =>
    cases piece with
    | nil =>
      rw [List.append_nil] at beyond
      omega
    | cons b piece =>
      rw [sniffSource_of_read undecided below read]
      exact Nat.lt_of_lt_of_le beyond (length_le_sniffSource _ _)
  | @later pulled piece s t read further ih =>
    -- what the later read left open was open here, so the sniffer goes on
    obtain ⟨hundecided, hbelow⟩ := (Oversteps.later read further).undecided
    cases piece with
    | nil =>
      obtain rfl := Source.eq_of_read_nil (by decide) read
      rwa [List.append_nil] at ih
    | cons b piece => rwa [sniffSource_of_read hundecided hbelow read]

theorem oversteps_of_beyond (hpulled : pulled.length ≤ sniffLimit)
    (h : sniffLimit < (sniffSource pulled s).2.1.length) : Oversteps pulled s := by
  fun_induction sniffSource pulled s with
  | case6 pulled s hpart hlimit b piece s' hread ih =>
    by_cases hbeyond : sniffLimit < (pulled ++ b :: piece).length
    · exact .here hpart (Nat.not_le.mp hlimit) hread hbeyond
    · exact .later hread (ih (Nat.not_lt.mp hbeyond) h)
  | _ => exact absurd h (Nat.not_lt.mpr hpulled)

/-- What was pulled is more than the limit just if one of the reads oversteps it. -/
theorem beyond_iff_oversteps (hpulled : pulled.length ≤ sniffLimit) :
    sniffLimit < (sniffSource pulled s).2.1.length ↔ Oversteps pulled s :=
  ⟨oversteps_of_beyond hpulled, Oversteps.beyond⟩

/-- The limit is a number of whole pieces, so reads of whole pieces stop there. -/
theorem not_oversteps_of_fills (hfills : s.Fills sniffPiece) (hwhole : sniffPiece ∣ pulled.length ∨ s.rest = []) :
    ¬ Oversteps pulled s := by
  intro h
  induction h with
  | @here pulled piece s t _ below read beyond =>
    have hlength := Source.length_of_read read
    rw [List.length_append] at beyond
    rcases hwhole with hwhole | hended
    · simp only [sniffLimit, sniffPiece] at hwhole hlength below beyond
      omega
    · have hparts := congrArg List.length (Source.read_append read)
      rw [hended, List.length_append, List.length_nil] at hparts
      omega
  | @later pulled piece s t read _ ih =>
    obtain ⟨hfull, hagain⟩ := hfills.read read
    refine ih hagain ?_
    rcases hwhole with hwhole | hended
    · refine hfull.imp_left (fun hfull => ?_)
      rw [List.length_append, hfull]
      exact Nat.dvd_add hwhole (Nat.dvd_refl _)
    · -- a source that has ended hands out nothing more
      have hparts := Source.read_append read
      rw [hended, List.append_eq_nil_iff] at hparts
      exact .inr hparts.2

/-! ### A source that oversteps the limit -/

theorem dropByteOrderMark_suffix (bytes : Bytes) : dropByteOrderMark bytes <:+ bytes := by
  unfold dropByteOrderMark
  split
  · exact List.suffix_append [0xEF, 0xBB, 0xBF] _
  · exact List.suffix_rfl

theorem sniffPart_text {bytes : Bytes} (h : ∀ b ∈ bytes, b ≠ Token.lessThan) : sniffPart bytes = .ok none :=
  sniffPart_eq_none_iff.mpr (.inl (look_text (fun b hb => h b ((dropByteOrderMark_suffix bytes).mem hb))))

theorem Source.read_of_piece {size : Nat} {pieces : List Nat} (hpieces : s.pieces = size :: pieces)
    (hpositive : 0 < size) (hsize : size ≤ room) (hrest : size ≤ s.rest.length) :
    s.read room = .ok (s.rest.take size, ⟨s.rest.drop size, pieces, s.breaks⟩) := by
  obtain ⟨rest, sizes, breaks⟩ := s
  cases hpieces
  cases rest with
  | nil => exact absurd hpositive (Nat.not_lt.mpr hrest)
  | cons b rest =>
    have hroom : min room (max 1 size) = size := by omega
    simp only [read, List.tail_cons, hroom]

/-- Bytes without markup, in pieces of one size that skips the limit. -/
theorem oversteps_of_even (n : Nat) {size : Nat} (hplain : ∀ b ∈ pulled ++ s.rest, b ≠ Token.lessThan)
    (hpieces : s.pieces = List.replicate (n + 1) size) (hpositive : 0 < size) (hsize : size ≤ sniffPiece)
    (hbelow : pulled.length + n * size < sniffLimit) (hbeyond : sniffLimit < pulled.length + (n + 1) * size)
    (hrest : (n + 1) * size ≤ s.rest.length) : Oversteps pulled s := by
  induction n generalizing pulled s with
  | zero =>
    have hread := Source.read_of_piece hpieces hpositive hsize (by omega)
    refine .here (sniffPart_text (fun b hb => hplain b (List.mem_append_left _ hb))) (by omega) hread ?_
    rw [List.length_append, List.length_take]
    omega
  | succ n ih =>
    simp only [Nat.add_mul, Nat.one_mul] at hbelow hbeyond hrest ih
    have hread := Source.read_of_piece hpieces hpositive hsize (by omega)
    have htaken : (pulled ++ s.rest.take size).length = pulled.length + size := by
      rw [List.length_append, List.length_take]
      omega
    refine .later hread (ih ?_ rfl (by omega) (by omega) ?_)
    · rwa [List.append_assoc, List.take_append_drop]
    · rw [List.length_drop]
      omega

/-- White space in pieces of one byte less than is asked for. -/
def Source.scant : Source := ⟨List.replicate 70000 32, List.replicate 17 4095, false⟩

theorem oversteps_scant : Oversteps [] Source.scant := by
  refine oversteps_of_even 16 (fun b hb => ?_) rfl (by decide) (by decide) (by decide) (by decide) ?_
  · rw [List.eq_of_mem_replicate hb]
    decide
  · rw [Source.scant, List.length_replicate]
    decide

/-! ### Any number of questions -/

/-- A question that is answered by the name of the payload. -/
inductive Inquiry.Sniffs : Inquiry → Prop where
  | name : Sniffs .name
  | hasPayload : Sniffs .hasPayload
  | isFault : Sniffs .isFault

/-- The source as a payload of which a name was sought. -/
def Source.sniffed (s : Source) : Payload := .stream (sniffSource [] s).2.1 (sniffSource [] s).2.2

namespace Message

variable {m : Message} {q : Inquiry} {qs : List Inquiry}

def askAll (m : Message) (qs : List Inquiry) : Message := qs.foldl (fun m q => (m.answer q).2) m

/-- The payload is a source that nothing was read of, and its name is not known yet. -/
def Fresh (m : Message) (s : Source) : Prop := m.payload = .stream [] s ∧ m.knownName = none

theorem answer_left (h : q.Sniffs) :
    (m.answer q).2 = m.payloadName.2 ∨ (q = .isFault ∧ m.version = none ∧ (m.answer q).2 = m) := by
  cases h with
  | name | hasPayload => exact .inl rfl
  | isFault =>
    cases hversion : m.version with
    | none => exact .inr ⟨rfl, rfl, by simp only [answer, isFault, hversion]; rfl⟩
    | some v => exact .inl (by simp only [answer, isFault, hversion]; rfl)

theorem payload_payloadName_of_fresh (h : m.Fresh s) : m.payloadName.2.payload = s.sniffed := by
  simp only [payloadName, h.1, h.2]
  split <;> rfl

theorem payload_payloadName_of_sniffed (h : m.payload = s.sniffed) : m.payloadName.2.payload = s.sniffed := by
  rw [payloadName]
  split
  · exact h
  · simp only [h, Source.sniffed, sniffSource_again]
    split <;> rfl

/-- One question: the source is sniffed, or nothing is done because no name could be the answer. -/
theorem payload_answer (h : m.Fresh s ∨ m.payload = s.sniffed) (hq : q.Sniffs) :
    (m.answer q).2.payload = s.sniffed ∨ (q = .isFault ∧ m.version = none ∧ (m.answer q).2 = m) := by
  refine (answer_left hq).imp_left (fun hleft => ?_)
  rw [hleft]
  exact h.elim payload_payloadName_of_fresh payload_payloadName_of_sniffed

theorem payload_askAll (h : m.Fresh s ∨ m.payload = s.sniffed) (hqs : ∀ q ∈ qs, q.Sniffs) :
    (m.askAll qs).payload = s.sniffed ∨ ((∀ q ∈ qs, q = .isFault ∧ m.version = none) ∧ m.askAll qs = m) := by
  induction qs generalizing m with
  | nil => exact .inr ⟨List.forall_mem_nil _, rfl⟩
  | cons q qs ih =>
    obtain ⟨hq, hqs⟩ := List.forall_mem_cons.mp hqs
    rcases payload_answer h hq with hsniffed | ⟨hfault, hversion, hsame⟩
    · refine .inl ((ih (.inr hsniffed) hqs).elim id (fun hrest => ?_))
      exact (congrArg Message.payload hrest.2).trans hsniffed
    · rw [askAll, List.foldl_cons, hsame]
      exact (ih h hqs).imp_right
        (fun hrest => ⟨List.forall_mem_cons.mpr ⟨⟨hfault, hversion⟩, hrest.1⟩, hrest.2⟩)

/-- However often a message is asked, less than a piece more than the limit is pulled from its source, and
nothing is lost of it. No more than the limit is pulled from a source that always fills a piece, and more than
the limit just if one of its reads oversteps it. -/
theorem pulled_bounded (hm : m.Fresh s) (hqs : ∀ q ∈ qs, q.Sniffs) :
    ∃ pulled t, (m.askAll qs).payload = .stream pulled t ∧ pulled ++ t.rest = s.rest ∧
      pulled.length < sniffLimit + sniffPiece ∧
      (s.Fills sniffPiece → pulled.length ≤ sniffLimit) ∧
      (sniffLimit < pulled.length → Oversteps [] s) ∧
      ((∃ q ∈ qs, q = .isFault → m.version ≠ none) → Oversteps [] s → sniffLimit < pulled.length) := by
  have hempty : ([] : Bytes).length ≤ sniffLimit := Nat.zero_le _
  rcases payload_askAll (.inl hm) hqs with hsniffed | ⟨hfaults, hsame⟩
  · refine ⟨_, _, hsniffed, (sniffSource_content [] s).1, length_sniffSource_lt (by decide), fun hfills => ?_,
      (beyond_iff_oversteps hempty).mp, fun _ => (beyond_iff_oversteps hempty).mpr⟩
    have hstops : ¬ Oversteps [] s := not_oversteps_of_fills hfills (.inl (Nat.dvd_zero _))
    exact Nat.not_lt.mp (mt (beyond_iff_oversteps hempty).mp hstops)
  · refine ⟨[], s, (congrArg Message.payload hsame).trans hm.1, rfl, by decide, fun _ => hempty, nofun, ?_⟩
    rintro ⟨q, hq, hasked⟩
    obtain ⟨rfl, hversion⟩ := hfaults q hq
    exact absurd hversion (hasked rfl)

/-- A fault is looked for, then the name and the presence of the payload are asked for. -/
theorem pulled_bounded_scant :
    let m := ofSource (some .v11) .scant
    ∃ pulled t, (m.askAll [.isFault, .name, .hasPayload]).payload = .stream pulled t ∧
      sniffLimit < pulled.length ∧ pulled.length < sniffLimit + sniffPiece := by
  intro m
  have hqs : ∀ q ∈ [Inquiry.isFault, .name, .hasPayload], q.Sniffs :=
    List.forall_mem_cons.mpr ⟨.isFault, List.forall_mem_cons.mpr ⟨.name,
      List.forall_mem_singleton.mpr .hasPayload⟩⟩
  obtain ⟨pulled, t, hpayload, -, hbounded, -, -, hbeyond⟩ := pulled_bounded (m := m) ⟨rfl, rfl⟩ hqs
  exact ⟨pulled, t, hpayload, hbeyond ⟨.name, by decide, nofun⟩ oversteps_scant, hbounded⟩

/-- Asking once is enough to pull more than the limit. -/
theorem sniffLimit_exceeded :
    ∃ pulled t, (ofSource none .scant).payloadName.2.payload = .stream pulled t ∧ sniffLimit < pulled.length :=
  ⟨_, _, payload_payloadName_of_fresh ⟨rfl, rfl⟩, oversteps_scant.beyond⟩

end Message

end SoapNode
