import SoapNode.Text.Utf8

/-!
# Encoded text is read back

Every character is read back from its UTF-8 form, whatever follows it, so decoding is a left inverse
of encoding. A character is ASCII exactly where its form has a byte below 128, which lets readers of
bytes look for ASCII marks without decoding.
-/

namespace SoapNode.Utf8

theorem isContinuation_of_toNat {b : UInt8} (h : 128 ≤ b.toNat) (h' : b.toNat < 192) : isContinuation b = true := by
  simp only [isContinuation, Bool.and_eq_true, decide_eq_true_eq, UInt8.le_iff_toNat_le, UInt8.reduceToNat]
  omega

theorem mayFollow_of_toNat {lead b : UInt8} (h : 128 ≤ b.toNat) (h' : b.toNat < 192)
    (h3 : lead.toNat = 0xE0 → 0xA0 ≤ b.toNat) (h3' : lead.toNat = 0xED → b.toNat < 0xA0)
    (h4 : lead.toNat = 0xF0 → 0x90 ≤ b.toNat) (h4' : lead.toNat = 0xF4 → b.toNat < 0x90) :
    mayFollow lead b = true := by
  simp only [mayFollow, beq_iff_eq, ← UInt8.toNat_inj, UInt8.reduceToNat]
  split
  · simp only [Bool.and_eq_true, decide_eq_true_eq, UInt8.le_iff_toNat_le, UInt8.reduceToNat]
    omega
  · split
    · simp only [Bool.and_eq_true, decide_eq_true_eq, UInt8.le_iff_toNat_le, UInt8.reduceToNat]
      omega
    · split
      · simp only [Bool.and_eq_true, decide_eq_true_eq, UInt8.le_iff_toNat_le, UInt8.reduceToNat]
        omega
      · split
        · simp only [Bool.and_eq_true, decide_eq_true_eq, UInt8.le_iff_toNat_le, UInt8.reduceToNat]
          omega
        · exact isContinuation_of_toNat h h'

theorem head_one {lead : UInt8} {rest : Bytes} (h : lead.toNat < 128) :
    head lead rest = .char (Char.ofNat lead.toNat) 0 := by
  rw [head.eq_def, if_pos (by simpa [UInt8.lt_iff_toNat_lt] using h)]

theorem head_two {lead b : UInt8} {rest : Bytes} (h : 0xC2 ≤ lead.toNat) (h' : lead.toNat < 0xE0)
    (hb : isContinuation b = true) :
    head lead (b :: rest) = .char (Char.ofNat (lead.toNat % 32 * 64 + low b)) 1 := by
  simp only [head, UInt8.lt_iff_toNat_lt, UInt8.reduceToNat]
  rw [if_neg (by omega), if_neg (by omega), if_pos h', if_pos hb]

theorem head_three {lead b c : UInt8} {rest : Bytes} (h : 0xE0 ≤ lead.toNat) (h' : lead.toNat < 0xF0)
    (hb : mayFollow lead b = true) (hc : isContinuation c = true) :
    head lead (b :: c :: rest) = .char (Char.ofNat ((lead.toNat % 16 * 64 + low b) * 64 + low c)) 2 := by
  simp only [head, UInt8.lt_iff_toNat_lt, UInt8.reduceToNat]
  rw [if_neg (by omega), if_neg (by omega), if_neg (by omega), if_pos h', if_neg (by simp [hb]), if_pos hc]

theorem head_four {lead b c d : UInt8} {rest : Bytes} (h : 0xF0 ≤ lead.toNat) (h' : lead.toNat < 0xF5)
    (hb : mayFollow lead b = true) (hc : isContinuation c = true) (hd : isContinuation d = true) :
    head lead (b :: c :: d :: rest) =
      .char (Char.ofNat (((lead.toNat % 8 * 64 + low b) * 64 + low c) * 64 + low d)) 3 := by
  simp only [head, UInt8.lt_iff_toNat_lt, UInt8.reduceToNat]
  rw [if_neg (by omega), if_neg (by omega), if_neg (by omega), if_neg (by omega), if_pos h', if_neg (by simp [hb]),
    if_neg (by simp [hc]), if_pos hd]

theorem ofNat_eq {c : Char} {n : Nat} (h : n = c.val.toNat) : Char.ofNat n = c := by
  subst h
  exact Char.ofNat_toNat c

theorem head_utf8EncodeChar (c : Char) (rest : Bytes) :
    ∃ lead more, String.utf8EncodeChar c = lead :: more ∧ head lead (more ++ rest) = .char c more.length := by
  have hvalid := c.valid
  simp only [UInt32.isValidChar, Nat.isValidChar] at hvalid
  unfold String.utf8EncodeChar
  simp only
  generalize hv : c.val.toNat = v at *
  split
  · have hlead : (UInt8.ofNat v).toNat = v := by simp; omega
    refine ⟨_, _, rfl, ?_⟩
    rw [head_one (by omega), hlead, ofNat_eq hv.symm, List.length_nil]
  · have hlast : (UInt8.ofNat (v % 64 + 128)).toNat = v % 64 + 128 := by simp; omega
    have hlastCont := isContinuation_of_toNat (b := UInt8.ofNat (v % 64 + 128)) (by omega) (by omega)
    split
    · have hlead : (UInt8.ofNat (v / 64 % 32 + 192)).toNat = v / 64 + 192 := by simp; omega
      refine ⟨_, _, rfl, ?_⟩
      rw [List.singleton_append, head_two (by omega) (by omega) hlastCont, ofNat_eq, List.length_singleton]
      rw [low, hlead, hlast]
      omega
    · have hmid : (UInt8.ofNat (v / 64 % 64 + 128)).toNat = v / 64 % 64 + 128 := by simp; omega
      have hmidCont := isContinuation_of_toNat (b := UInt8.ofNat (v / 64 % 64 + 128)) (by omega) (by omega)
      split
      · have hlead : (UInt8.ofNat (v / 4096 % 16 + 224)).toNat = v / 4096 + 224 := by simp; omega
        have hfollow := @mayFollow_of_toNat (UInt8.ofNat (v / 4096 % 16 + 224)) (UInt8.ofNat (v / 64 % 64 + 128))
          (by omega) (by omega) (by omega) (by omega) (by omega) (by omega)
        refine ⟨_, _, rfl, ?_⟩
        rw [List.cons_append, List.singleton_append, head_three (by omega) (by omega) hfollow hlastCont, ofNat_eq]
        · rfl
        · rw [low, low, hlead, hmid, hlast]
          omega
      · have hlead : (UInt8.ofNat (v / 262144 % 8 + 240)).toNat = v / 262144 + 240 := by simp; omega
        have hsecond : (UInt8.ofNat (v / 4096 % 64 + 128)).toNat = v / 4096 % 64 + 128 := by simp; omega
        have hfollow := @mayFollow_of_toNat (UInt8.ofNat (v / 262144 % 8 + 240)) (UInt8.ofNat (v / 4096 % 64 + 128))
          (by omega) (by omega) (by omega) (by omega) (by omega) (by omega)
        refine ⟨_, _, rfl, ?_⟩
        rw [List.cons_append, List.cons_append, List.singleton_append,
          head_four (by omega) (by omega) hfollow hmidCont hlastCont, ofNat_eq]
        · rfl
        · rw [low, low, low, hlead, hsecond, hmid, hlast]
          omega

theorem decodeFrom_utf8EncodeChar (index : Nat) (read : List Char) (c : Char) (rest : Bytes) :
    ∃ next, decodeFrom index read (String.utf8EncodeChar c ++ rest) = decodeFrom next (c :: read) rest := by
  obtain ⟨lead, more, heq, hhead⟩ := head_utf8EncodeChar c rest
  refine ⟨index + more.length + 1, ?_⟩
  rw [heq, List.cons_append, decodeFrom, hhead]
  simp

theorem decodeFrom_encodeChars (index : Nat) (read cs : List Char) :
    decodeFrom index read (encodeChars cs) = .ok (read.reverse ++ cs) := by
  induction cs generalizing index read with
  | nil => simp [encodeChars, decodeFrom]
  | cons c cs ih =>
    obtain ⟨next, hnext⟩ := decodeFrom_utf8EncodeChar index read c (encodeChars cs)
    rw [encodeChars, List.flatMap_cons, ← encodeChars, hnext, ih]
    simp

theorem decodeChars_encodeChars (cs : List Char) : decodeChars (encodeChars cs) = .ok cs := by
  simp [decodeChars, decodeFrom_encodeChars]

theorem decode_encodeChars (cs : List Char) : decode (encodeChars cs) = .ok (String.ofList cs) := by
  simp [decode, decodeChars_encodeChars, Except.map]

@[simp] theorem encodeChars_nil : encodeChars [] = [] := rfl

theorem encodeChars_singleton (c : Char) : encodeChars [c] = String.utf8EncodeChar c := List.flatMap_singleton _ _

theorem encodeChars_cons (c : Char) (cs : List Char) :
    encodeChars (c :: cs) = String.utf8EncodeChar c ++ encodeChars cs := rfl

theorem encodeChars_cons_ascii {c : Char} (cs : List Char) (h : c.toNat < 128) :
    encodeChars (c :: cs) = UInt8.ofNat c.toNat :: encodeChars cs := by
  have hle : c.val.toNat ≤ 127 := by
    have : c.toNat = c.val.toNat := rfl
    omega
  rw [encodeChars_cons, String.utf8EncodeChar]
  simp only [hle, if_true, List.singleton_append]
  rfl

theorem eq_of_mem_utf8EncodeChar {b : UInt8} {c : Char} (hb : b ∈ String.utf8EncodeChar c) (h : b.toNat < 128) :
    b.toNat = c.toNat := by
  have hvalid := c.valid
  simp only [UInt32.isValidChar, Nat.isValidChar] at hvalid
  have hc : c.toNat = c.val.toNat := rfl
  rw [hc]
  unfold String.utf8EncodeChar at hb
  simp only at hb
  generalize c.val.toNat = v at *
  split at hb
  · simp only [List.mem_singleton] at hb
    subst hb
    simp only [UInt8.toNat_ofNat']
    omega
  · exfalso
    split at hb
    · simp only [List.mem_cons, List.not_mem_nil, or_false] at hb
      rcases hb with rfl | rfl <;> simp only [UInt8.toNat_ofNat'] at h <;> omega
    · split at hb <;> simp only [List.mem_cons, List.not_mem_nil, or_false] at hb
      · rcases hb with rfl | rfl | rfl <;> simp only [UInt8.toNat_ofNat'] at h <;> omega
      · rcases hb with rfl | rfl | rfl | rfl <;> simp only [UInt8.toNat_ofNat'] at h <;> omega

theorem not_mem_encodeChars {b : UInt8} {cs : List Char} (hb : b.toNat < 128) (h : Char.ofNat b.toNat ∉ cs) :
    b ∉ encodeChars cs := by
  intro hmem
  obtain ⟨c, hc, hbc⟩ := List.mem_flatMap.mp hmem
  apply h
  rwa [eq_of_mem_utf8EncodeChar hbc hb, Char.ofNat_toNat]

theorem eq_of_ofNat_mem {c d : Char} (hc : c.toNat < 128) (h : UInt8.ofNat c.toNat ∈ String.utf8EncodeChar d) :
    d = c := by
  have hsmall : (UInt8.ofNat c.toNat).toNat = c.toNat := by
    rw [UInt8.toNat_ofNat']
    omega
  have hd := eq_of_mem_utf8EncodeChar h (by omega)
  exact Char.toNat_inj.mp (hd.symm.trans hsmall)

theorem encodeChars_eq_nil_iff {cs : List Char} : encodeChars cs = [] ↔ cs = [] := by
  cases cs with
  | nil => simp
  | cons c cs =>
    obtain ⟨lead, more, heq, _⟩ := head_utf8EncodeChar c []
    simp [encodeChars_cons, heq]

/-- A text that begins with these bytes begins with their character. -/
theorem exists_of_encodeChars_eq_append {c : Char} {cs : List Char} {rest : Bytes}
    (h : encodeChars cs = String.utf8EncodeChar c ++ rest) :
    ∃ cs', cs = c :: cs' ∧ rest = encodeChars cs' := by
  obtain ⟨lead, more, hc, hhead⟩ := head_utf8EncodeChar c rest
  cases cs with
  | nil => simp [hc] at h
  | cons d cs =>
    obtain ⟨lead', more', hd, hhead'⟩ := head_utf8EncodeChar d (encodeChars cs)
    rw [encodeChars_cons, hc, hd, List.cons_append, List.cons_append, List.cons.injEq] at h
    obtain ⟨rfl, hrest⟩ := h
    rw [hrest, hhead, Head.char.injEq] at hhead'
    obtain ⟨rfl, hlength⟩ := hhead'
    exact ⟨cs, rfl, (List.append_inj_right hrest hlength.symm).symm⟩

theorem exists_of_encodeChars_append {word cs : List Char} {rest : Bytes}
    (h : encodeChars cs = encodeChars word ++ rest) :
    ∃ cs', cs = word ++ cs' ∧ rest = encodeChars cs' := by
  induction word generalizing cs with
  | nil => exact ⟨cs, rfl, h.symm⟩
  | cons c word ih =>
    rw [encodeChars_cons, List.append_assoc] at h
    obtain ⟨cs, rfl, hbehind⟩ := exists_of_encodeChars_eq_append h
    obtain ⟨cs', rfl, hrest⟩ := ih hbehind.symm
    exact ⟨cs', rfl, hrest⟩

/-- Where bytes have an ASCII mark their text has it, too, and both are cut there. -/
theorem exists_of_encodeChars_eq {c : Char} (hc : c.toNat < 128) {cs : List Char} {a b : Bytes}
    (h : encodeChars cs = a ++ UInt8.ofNat c.toNat :: b) :
    ∃ xs ys, cs = xs ++ c :: ys ∧ a = encodeChars xs ∧ b = encodeChars ys := by
  induction cs generalizing a with
  | nil => simp at h
  | cons d cs ih =>
    rw [encodeChars_cons, List.append_eq_append_iff] at h
    rcases h with ⟨a', rfl, hrest⟩ | ⟨more, hd, hrest⟩
    · obtain ⟨xs, ys, rfl, rfl, rfl⟩ := ih hrest
      exact ⟨d :: xs, ys, rfl, (encodeChars_cons d xs).symm, rfl⟩
    · cases more with
      | nil =>
        obtain ⟨xs, ys, rfl, hxs, rfl⟩ := ih (a := []) hrest.symm
        rw [List.append_nil] at hd
        refine ⟨d :: xs, ys, rfl, ?_, rfl⟩
        rw [encodeChars_cons, ← hxs, List.append_nil, hd]
      | cons m more =>
        obtain ⟨rfl, rfl⟩ := List.cons.inj hrest
        have hmem : UInt8.ofNat c.toNat ∈ String.utf8EncodeChar d := by simp [hd]
        obtain rfl := eq_of_ofNat_mem hc hmem
        -- an ASCII character is one byte, so nothing of it is on either side
        have hone : String.utf8EncodeChar d = [UInt8.ofNat d.toNat] := by
          rw [← encodeChars_singleton, encodeChars_cons_ascii [] hc, encodeChars_nil]
        rw [hone] at hd
        obtain ⟨rfl, rfl⟩ : a = [] ∧ more = [] := by simpa [List.singleton_eq_append_iff] using hd
        exact ⟨[], cs, rfl, rfl, rfl⟩

theorem encodeChars_injective : Function.Injective encodeChars := by
  intro a b h
  have := congrArg decodeChars h
  simpa [decodeChars_encodeChars] using this

end SoapNode.Utf8
