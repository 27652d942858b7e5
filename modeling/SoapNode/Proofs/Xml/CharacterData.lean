import SoapNode.Proofs.Text.Utf8
import SoapNode.Xml.Tag

/-!
# Escaped text is read back

Escaping writes the five markup characters as references and nothing else, so escaped text has no
angle bracket and no quote in it, and resolving its references gives the text again. This holds of
every text, whatever characters it has.
-/

namespace SoapNode

namespace Entity

theorem unescapeFrom_reference {index : Nat} {read word rest : List Char} {c : Char}
    (hword : word.all (!isMark ·) = true) (hreferent : ∀ start, referent start word = .ok c) :
    ∃ next, unescapeFrom index read ('&' :: word ++ ';' :: rest) = unescapeFrom next (c :: read) rest := by
  have htake : (word ++ ';' :: rest).takeWhile (!isMark ·) = word := by
    rw [List.takeWhile_append_of_pos (by simpa using hword), List.takeWhile_cons_of_neg (by decide), List.append_nil]
  have hdrop : (word ++ ';' :: rest).dropWhile (!isMark ·) = ';' :: rest := by
    rw [List.dropWhile_append_of_pos (by simpa using hword), List.dropWhile_cons_of_neg (by decide)]
  refine ⟨index + byteLength word + 2, ?_⟩
  rw [List.cons_append, unescapeFrom, if_pos (by decide)]
  simp only [htake]
  split
  · rename_i rest' hrest
    rw [hdrop] at hrest
    cases hrest
    rw [hreferent]
  · rename_i hnone
    exact absurd hdrop (hnone rest)

theorem unescapeFrom_plain {index : Nat} {read rest : List Char} {c : Char} (h : c ≠ '&') :
    unescapeFrom index read (c :: rest) = unescapeFrom (index + c.utf8Size) (c :: read) rest := by
  rw [unescapeFrom, if_neg (by simpa using h)]

theorem unescapeFrom_escapeChar (index : Nat) (read rest : List Char) (c : Char) :
    ∃ next, unescapeFrom index read (escapeChar c ++ rest) = unescapeFrom next (c :: read) rest := by
  unfold escapeChar
  split
  · obtain rfl : c = '<' := by simpa using ‹(c == '<') = true›
    exact unescapeFrom_reference (show (['l', 't'] : List Char).all (!isMark ·) = true by decide) (fun _ => rfl)
  · split
    · obtain rfl : c = '>' := by simpa using ‹(c == '>') = true›
      exact unescapeFrom_reference (show (['g', 't'] : List Char).all (!isMark ·) = true by decide) (fun _ => rfl)
    · split
      · obtain rfl : c = '&' := by simpa using ‹(c == '&') = true›
        exact unescapeFrom_reference (show (['a', 'm', 'p'] : List Char).all (!isMark ·) = true by decide)
          (fun _ => rfl)
      · split
        · obtain rfl : c = '\x27' := by simpa using ‹(c == '\x27') = true›
          exact unescapeFrom_reference (show (['a', 'p', 'o', 's'] : List Char).all (!isMark ·) = true by decide)
            (fun _ => rfl)
        · split
          · obtain rfl : c = '"' := by simpa using ‹(c == '"') = true›
            exact unescapeFrom_reference (show (['q', 'u', 'o', 't'] : List Char).all (!isMark ·) = true by decide)
              (fun _ => rfl)
          · exact ⟨_, unescapeFrom_plain (by simpa using ‹¬(c == '&') = true›)⟩

theorem unescapeFrom_escapeChars (index : Nat) (read cs : List Char) :
    unescapeFrom index read (escapeChars cs) = .ok (read.reverse ++ cs) := by
  induction cs generalizing index read with
  | nil => simp [escapeChars, unescapeFrom]
  | cons c cs ih =>
    obtain ⟨next, hnext⟩ := unescapeFrom_escapeChar index read (escapeChars cs) c
    rw [escapeChars, List.flatMap_cons, ← escapeChars, hnext, ih]
    simp

theorem unescape_escape (s : String) : unescape (String.ofList (escape s)) = .ok s := by
  simp [unescape, unescapeChars, escape, unescapeFrom_escapeChars, Except.map]

/-- The characters that escaping leaves no trace of. -/
def isMarkup (c : Char) : Bool := c == '<' || c == '>' || c == '"' || c == '\x27'

theorem all_escapeChar (c : Char) : (escapeChar c).all (fun d => !isMarkup d) = true := by
  unfold escapeChar
  split
  · decide
  · split
    · decide
    · split
      · decide
      · split
        · decide
        · split
          · decide
          · simp_all [isMarkup]

theorem isMarkup_of_mem_escape {s : String} {d : Char} (h : d ∈ escape s) : isMarkup d = false := by
  obtain ⟨c, _, hd⟩ := List.mem_flatMap.mp h
  simpa using List.all_eq_true.mp (all_escapeChar c) d hd

theorem escape_append (s t : String) : escape (s ++ t) = escape s ++ escape t := by
  simp [escape, escapeChars]

@[simp] theorem escape_empty : escape "" = [] := rfl

theorem escapeChar_ne_nil (c : Char) : escapeChar c ≠ [] := by
  unfold escapeChar
  repeat' split
  all_goals simp

theorem escape_eq_nil_iff {s : String} : escape s = [] ↔ s = "" := by
  constructor
  · intro h
    cases hs : s.toList with
    | nil => rwa [String.toList_eq_nil_iff] at hs
    | cons c cs =>
      rw [escape, hs, escapeChars, List.flatMap_cons, List.append_eq_nil_iff] at h
      exact absurd h.1 (escapeChar_ne_nil c)
  · rintro rfl
    rfl

theorem ne_of_mem_encode_escape {s : String} {b : UInt8} (hb : b ∈ Utf8.encodeChars (escape s)) :
    b ≠ 60 ∧ b ≠ 62 ∧ b ≠ 34 ∧ b ≠ 39 := by
  have key : ∀ m : UInt8, m.toNat < 128 → isMarkup (Char.ofNat m.toNat) = true → b ≠ m := by
    rintro m hm hmark rfl
    apply Utf8.not_mem_encodeChars hm _ hb
    intro hmem
    rw [isMarkup_of_mem_escape hmem] at hmark
    cases hmark
  exact ⟨key 60 (by decide) (by decide), key 62 (by decide) (by decide), key 34 (by decide) (by decide),
    key 39 (by decide) (by decide)⟩

end Entity

theorem mapError_ok {ε ε' α : Type} (f : ε → ε') (a : α) : (Except.ok a : Except ε α).mapError f = .ok a :=
  rfl

theorem ok_of_mapError {ε ε' α : Type} {r : Except ε α} {f : ε → ε'} {a : α} (h : r.mapError f = .ok a) :
    r = .ok a := by
  cases r with
  | error e => cases h
  | ok a' =>
    cases h
    rfl

theorem ok_of_bind {ε α β : Type} {r : Except ε α} {next : α → Except ε β} {b : β} (h : r >>= next = .ok b) :
    ∃ a, r = .ok a ∧ next a = .ok b := by
  cases r with
  | error e => cases h
  | ok a => exact ⟨a, rfl, h⟩

theorem error_of_bind {ε α β : Type} {r : Except ε α} {next : α → Except ε β} {e : ε}
    (h : r >>= next = .error e) : r = .error e ∨ ∃ a, r = .ok a ∧ next a = .error e := by
  cases r with
  | error e' =>
    cases h
    exact .inl rfl
  | ok a => exact .inr ⟨a, rfl, h⟩

namespace StartTag

theorem readText_escape (s : String) : readText (Utf8.encodeChars (Entity.escape s)) = .ok s := by
  simp only [readText, Utf8.decode_encodeChars, mapError_ok, bind, Except.bind, Entity.unescape_escape]

end StartTag

end SoapNode
