import Mathlib.Data.List.TakeWhile
import SoapNode.Proofs.Xml.Trees

/-!
# What the beginning of a document shows

A token that is markup ends where its own bytes end: bytes behind it change nothing, and the bytes up to
its end are enough. Only a text goes on. So the beginning of a document shows the first start tag of the
whole document, with its name or with what is wrong with it, or it shows nothing yet.
-/

namespace SoapNode

/-- A way of reading that looks no further than where it stops. `R bytes v rest` says that `v` is read off
the bytes and `rest` is left of them. -/
structure Bounded {α : Type} (R : Bytes → α → Bytes → Prop) : Prop where
  append : ∀ {a rest v} b, R a v rest → R (a ++ b) v (rest ++ b)
  within : ∀ {a b rest v}, R (a ++ b) v rest → b.length ≤ rest.length →
    ∃ rest', rest = rest' ++ b ∧ R a v rest'

namespace Bounded

variable {α β σ : Type} {R S : Bytes → α → Bytes → Prop}

theorem congr (h : Bounded R) (heq : ∀ bytes v rest, S bytes v rest ↔ R bytes v rest) : Bounded S where
  append b hread := (heq _ _ _).mpr (h.append b ((heq _ _ _).mp hread))
  within hread hle := by
    obtain ⟨rest', hrest, hread⟩ := h.within ((heq _ _ _).mp hread) hle
    exact ⟨rest', hrest, (heq _ _ _).mpr hread⟩

theorem none : Bounded (fun _ (_ : α) _ => False) := ⟨fun _ => False.elim, fun h => h.elim⟩

theorem cons (h : Bounded R) (b : UInt8) : Bounded (fun bytes => R (b :: bytes)) where
  append b' hread := h.append b' hread
  within {a} _ _ _ hread hle := h.within (a := b :: a) hread hle

/-- Where something is read at all, it is enough to look behind the first byte. -/
theorem of_cons (hshorter : ∀ {bytes v rest}, R bytes v rest → rest.length < bytes.length)
    (hcons : ∀ b, Bounded (fun bytes => R (b :: bytes))) : Bounded R where
  append {a _ _} b hread := by
    cases a with
    | nil => exact absurd (hshorter hread) (Nat.not_lt_zero _)
    | cons c a => exact (hcons c).append b hread
  within {a b _ _} hread hle := by
    cases a with
    | nil => exact absurd (hshorter hread) (Nat.not_lt.mpr hle)
    | cons c a => exact (hcons c).within hread hle

theorem bind {P : α → β → Prop} (h : Bounded R) :
    Bounded (fun bytes t rest => ∃ v, R bytes v rest ∧ P v t) where
  append b := fun ⟨v, hread, hv⟩ => ⟨v, h.append b hread, hv⟩
  within := by
    rintro a b rest t ⟨v, hread, hv⟩ hle
    obtain ⟨rest', hrest, hread⟩ := h.within hread hle
    exact ⟨rest', hrest, v, hread, hv⟩

/-- A search that decides at each byte whether it stops or in which state it goes on. -/
theorem of_steps {f : σ → Bytes → Option (α × Bytes)}
    (hshorter : ∀ {s bytes v rest}, f s bytes = some (v, rest) → rest.length < bytes.length)
    (hstep : ∀ s b, (∃ v, ∀ rest, f s (b :: rest) = some (v, rest)) ∨
      ∃ s', ∀ rest, f s (b :: rest) = f s' rest) (s : σ) :
    Bounded (fun bytes v rest => f s bytes = some (v, rest)) where
  append {a rest v} b hread := by
    induction a generalizing s with
    | nil => exact absurd (hshorter hread) (Nat.not_lt_zero _)
    | cons c a ih =>
      rcases hstep s c with ⟨v', hstop⟩ | ⟨s', hgo⟩
      · rw [hstop] at hread
        cases hread
        exact hstop _
      · rw [List.cons_append, hgo]
        exact ih s' (hgo a ▸ hread)
  within {a b rest v} hread hle := by
    induction a generalizing s with
    | nil => exact absurd (hshorter hread) (Nat.not_lt.mpr hle)
    | cons c a ih =>
      rcases hstep s c with ⟨v', hstop⟩ | ⟨s', hgo⟩
      · rw [List.cons_append, hstop] at hread
        cases hread
        exact ⟨a, rfl, hstop a⟩
      · rw [List.cons_append, hgo] at hread
        rw [hgo]
        exact ih s' hread

end Bounded

namespace Token

variable {a b bytes rest : Bytes} {t : Token}

theorem bounded_cut (ended : Bytes → Bool) (passed : Bytes) :
    Bounded (fun bytes content rest => cut ended passed bytes = some (content, rest)) := by
  apply Bounded.of_steps (f := cut ended) cut_shorter
  intro passed b
  by_cases h : (b == greaterThan && ended passed) = true
  · exact .inl ⟨passed.reverse, fun rest => by rw [cut, if_pos h]⟩
  · exact .inr ⟨b :: passed, fun rest => by rw [cut, if_neg h]⟩

theorem bounded_cutTag (quote : Option UInt8) (passed : Bytes) :
    Bounded (fun bytes content rest => cutTag quote passed bytes = some (content, rest)) := by
  apply Bounded.of_steps (f := fun s : Option UInt8 × Bytes => cutTag s.1 s.2) cutTag_shorter (s := (quote, passed))
  rintro ⟨quote, passed⟩ b
  cases quote with
  | none =>
    by_cases h : (b == greaterThan) = true
    · exact .inl ⟨passed.reverse, fun rest => by simp only [cutTag, if_pos h]⟩
    · exact .inr ⟨(if b == 34 || b == 39 then some b else none, b :: passed),
        fun rest => by simp only [cutTag, if_neg h]⟩
  | some q => exact .inr ⟨(if b == q then none else some q, b :: passed), fun rest => by simp only [cutTag]⟩

theorem bounded_cutBalanced (depth : Nat) (passed : Bytes) :
    Bounded (fun bytes content rest => cutBalanced depth passed bytes = some (content, rest)) := by
  apply Bounded.of_steps (f := fun s : Nat × Bytes => cutBalanced s.1 s.2) cutBalanced_shorter (s := (depth, passed))
  rintro ⟨depth, passed⟩ b
  by_cases h : (b == greaterThan) = true
  · cases depth with
    | zero => exact .inl ⟨passed.reverse, fun rest => by rw [cutBalanced, if_pos h]⟩
    | succ depth => exact .inr ⟨(depth, b :: passed), fun rest => by rw [cutBalanced, if_pos h]⟩
  · exact .inr ⟨(if b == lessThan then depth + 1 else depth, b :: passed),
      fun rest => by rw [cutBalanced.eq_def]; simp only [if_neg h]⟩

theorem finish_eq_ok_iff {unclosed : MarkupError} {make : Bytes → Except XmlError Token}
    {found : Option (Bytes × Bytes)} :
    finish unclosed make found = .ok (t, rest) ↔
      ∃ content, found = some (content, rest) ∧ make content = .ok t := by
  constructor
  · intro h
    obtain ⟨content, rfl⟩ := finish_ok h
    refine ⟨content, rfl, ?_⟩
    rw [finish] at h
    split at h
    · cases h
    · rename_i hmake
      cases h
      exact hmake
  · rintro ⟨content, rfl, hmake⟩
    simp only [finish, hmake]

theorem bounded_finish (unclosed : MarkupError) (make : Bytes → Except XmlError Token)
    {f : Bytes → Option (Bytes × Bytes)} (h : Bounded (fun bytes content rest => f bytes = some (content, rest))) :
    Bounded (fun bytes t rest => finish unclosed make (f bytes) = .ok (t, rest)) :=
  h.bind.congr (fun _ _ _ => finish_eq_ok_iff)

theorem declaration_shorter (h : declaration bytes = .ok (t, rest)) : rest.length < bytes.length := by
  unfold declaration at h
  split at h
  · cases h
  · split at h
    · exact (finish_ok h).elim (fun _ => cut_shorter)
    · split at h
      · exact (finish_ok h).elim (fun _ => cut_shorter)
      · split at h
        · exact (finish_ok h).elim (fun _ => cutBalanced_shorter)
        · cases h

theorem bounded_declaration : Bounded (fun bytes t rest => declaration bytes = .ok (t, rest)) := by
  refine Bounded.of_cons declaration_shorter (fun b => ?_)
  simp only [declaration]
  split
  · exact (bounded_finish .cdata ofCdata (bounded_cut cdataEnded [])).cons b
  · split
    · exact (bounded_finish .comment ofComment (bounded_cut commentEnded [])).cons b
    · split
      · exact (bounded_finish .doctype ofDoctype (bounded_cutBalanced 0 [])).cons b
      · exact Bounded.none.congr (fun _ _ _ => by simp)

theorem bounded_markup : Bounded (fun bytes t rest => markup bytes = .ok (t, rest)) := by
  refine Bounded.of_cons markup_shorter (fun b => ?_)
  simp only [markup]
  split
  · exact bounded_declaration
  · split
    · exact bounded_finish .instruction ofInstruction (bounded_cut instructionEnded [question])
    · split
      · exact bounded_finish .tag (.ok ∘ ofEndTag) (bounded_cutTag none [])
      · exact (bounded_finish .tag (.ok ∘ ofTag) (bounded_cutTag none [])).cons b

theorem next_markup : next (lessThan :: bytes) = .ok (some (t, rest)) ↔ markup bytes = .ok (t, rest) := by
  rw [next, if_pos (by decide)]
  cases markup bytes <;> simp [Except.map]

/-- A run that ends inside the first bytes ends there whatever follows them. -/
theorem span_append {p : UInt8 → Bool} (hends : a.dropWhile p ≠ []) (b : Bytes) :
    (a ++ b).takeWhile p = a.takeWhile p ∧ (a ++ b).dropWhile p = a.dropWhile p ++ b := by
  have hlength : (a.takeWhile p).length ≠ a.length := by
    intro heq
    have hparts := congrArg List.length (List.takeWhile_append_dropWhile (p := p) (l := a))
    rw [List.length_append, heq, Nat.add_eq_left] at hparts
    exact hends (List.eq_nil_of_length_eq_zero hparts)
  rw [List.takeWhile_append, if_neg hlength, List.dropWhile_append, if_neg (by simpa using hends)]
  exact ⟨rfl, rfl⟩

/-- Only a text may go on behind the bytes. -/
theorem next_append (h : next a = .ok (some (t, rest))) (hends : rest = [] → ∀ raw, t ≠ .text raw) (b : Bytes) :
    next (a ++ b) = .ok (some (t, rest ++ b)) := by
  cases a with
  | nil => cases h
  | cons c a =>
    by_cases hc : c = lessThan
    · subst hc
      exact next_markup.mpr (bounded_markup.append b (next_markup.mp h))
    · have hplain : ¬(c == lessThan) = true := by simpa using hc
      rw [next, if_neg hplain] at h
      cases h
      obtain ⟨htext, hrest⟩ := span_append (fun hnil => hends hnil _ rfl) b
      rw [List.cons_append, next, if_neg hplain, htext, hrest]

/-- A token that leaves all of the later bytes is there without them. -/
theorem next_within (h : next (a ++ b) = .ok (some (t, rest))) (hle : b.length ≤ rest.length) :
    ∃ rest', rest = rest' ++ b ∧ next a = .ok (some (t, rest')) := by
  cases a with
  | nil => exact absurd (next_shorter h) (Nat.not_lt.mpr hle)
  | cons c a =>
    by_cases hc : c = lessThan
    · subst hc
      obtain ⟨rest', hrest, hread⟩ := bounded_markup.within (next_markup.mp h) hle
      exact ⟨rest', hrest, next_markup.mpr hread⟩
    · have hplain : ¬(c == lessThan) = true := by simpa using hc
      rw [List.cons_append, next, if_neg hplain] at h
      cases h
      rw [next, if_neg hplain]
      by_cases hnil : a.dropWhile (· != lessThan) = []
      · -- the text runs up to the later bytes, and none of them belongs to it
        have hall := List.dropWhile_eq_nil_iff.mp hnil
        rw [List.dropWhile_append_of_pos hall] at hle ⊢
        have hb : b.dropWhile (· != lessThan) = b := (List.dropWhile_suffix _).eq_of_length_le hle
        have hparts := List.takeWhile_append_dropWhile (p := (· != lessThan)) (l := b)
        rw [hb, List.append_left_eq_self] at hparts
        rw [List.takeWhile_append_of_pos hall, hparts, List.append_nil, List.takeWhile_eq_self_iff.mpr hall, hnil]
        exact ⟨[], hb, rfl⟩
      · obtain ⟨htext, hrest⟩ := span_append hnil b
        rw [htext, hrest]
        exact ⟨_, rfl, rfl⟩

/-- A start tag, with or without content behind it. -/
def Opening : Token → Prop
  | .startTag _ | .emptyTag _ => True
  | _ => False

/-- What may stand in front of the first start tag. -/
def Passed : Token → Prop
  | .text _ | .cdata _ | .comment | .instruction => True
  | _ => False

end Token

namespace Sniff

open Token

variable {a b bytes rest : Bytes} {t : Token}

/-- The first start tag of the bytes ends in front of these last ones. -/
inductive Opens : Bytes → Bytes → Prop where
  | here {bytes rest : Bytes} {t : Token} (first : next bytes = .ok (some (t, rest))) (opening : t.Opening) :
    Opens bytes rest
  | behind {bytes rest after : Bytes} {t : Token} (first : next bytes = .ok (some (t, rest))) (passed : t.Passed)
      (further : Opens rest after) : Opens bytes after

/-- Nothing is settled by what was seen: no start tag, or markup that cannot be read as it stands. -/
def Pending (seen : Except XmlError Sight) : Prop := seen = .ok .nothing ∨ ∃ cause, seen = .ok (.broken cause)

theorem look_nil : look [] = .ok .nothing := by
  rw [look]
  rfl

theorem look_passed (hnext : next bytes = .ok (some (t, rest))) (ht : t.Passed) : look bytes = look rest := by
  rw [look_of_next hnext]
  cases t <;> first | rfl | exact ht.elim

theorem not_pending_opening (hnext : next bytes = .ok (some (t, rest))) (ht : t.Opening) : ¬ Pending (look bytes) := by
  obtain ⟨content, hlook⟩ : ∃ content, look bytes = (StartTag.read [] content).map (.named ·.name) := by
    rw [look_of_next hnext]
    cases t with
    | startTag content => exact ⟨content, rfl⟩
    | emptyTag content => exact ⟨content, rfl⟩
    | _ => exact ht.elim
  rw [hlook]
  cases StartTag.read [] content <;> simp [Pending, Except.map]

/-- What is settled by the beginning stays so, whatever follows. -/
theorem look_append (a b : Bytes) : Pending (look a) ∨ look (a ++ b) = look a := by
  fun_induction look a with
  | case1 bytes cause => exact .inl (.inr ⟨cause, rfl⟩)
  | case2 => exact .inl (.inl rfl)
  | case3 bytes rest content hnext => exact .inr (look_of_next (next_append hnext (by rintro - _ ⟨⟩) b))
  | case4 bytes rest content hnext => exact .inr (look_of_next (next_append hnext (by rintro - _ ⟨⟩) b))
  | case5 bytes rest name hnext => exact .inl (.inr ⟨_, rfl⟩)
  | case6 bytes rest hnext => exact .inr (look_of_next (next_append hnext (by rintro - _ ⟨⟩) b))
  | case7 bytes rest raw hnext _ ih =>
    by_cases hrest : rest = []
    · subst hrest
      exact .inl (.inl look_nil)
    · rw [look_passed (next_append hnext (fun hnil => absurd hnil hrest) b) trivial]
      exact ih
  | case8 bytes rest content hnext _ ih =>
    rw [look_passed (next_append hnext (by rintro - _ ⟨⟩) b) trivial]
    exact ih
  | case9 bytes rest hnext _ ih =>
    rw [look_passed (next_append hnext (by rintro - _ ⟨⟩) b) trivial]
    exact ih
  | case10 bytes rest hnext _ ih =>
    rw [look_passed (next_append hnext (by rintro - _ ⟨⟩) b) trivial]
    exact ih

theorem Opens.shorter {after : Bytes} (h : Opens bytes after) : after.length < bytes.length := by
  induction h with
  | here first => exact next_shorter first
  | behind first _ _ ih => exact Nat.lt_trans ih (next_shorter first)

/-- A start tag that ends within the beginning is seen there. -/
theorem Opens.not_pending {after : Bytes} (h : Opens (a ++ b) after) (hle : b.length ≤ after.length) :
    ¬ Pending (look a) := by
  generalize hbytes : a ++ b = bytes at h
  induction h generalizing a with
  | here first opening =>
    subst hbytes
    obtain ⟨rest', -, hnext⟩ := next_within first hle
    exact not_pending_opening hnext opening
  | behind first passed further ih =>
    subst hbytes
    obtain ⟨rest', hrest, hnext⟩ := next_within first (Nat.le_trans hle (Nat.le_of_lt further.shorter))
    rw [look_passed hnext passed]
    exact ih hle hrest.symm

end Sniff

open Sniff

theorem look_text {bytes : Bytes} (h : ∀ b ∈ bytes, b ≠ Token.lessThan) : look bytes = .ok .nothing := by
  cases bytes with
  | nil => exact look_nil
  | cons c bytes =>
    have hplain : ¬(c == Token.lessThan) = true := by simpa using h c List.mem_cons_self
    have hall : ∀ b ∈ bytes, (b != Token.lessThan) = true :=
      fun b hb => by simpa using h b (List.mem_cons_of_mem _ hb)
    have hnext : Token.next (c :: bytes) = .ok (some (.text (c :: bytes), [])) := by
      rw [Token.next, if_neg hplain, List.takeWhile_eq_self_iff.mpr hall, List.dropWhile_eq_nil_iff.mpr hall]
    rw [look_passed hnext trivial, look_nil]

/-- A byte order mark is cut from the beginning as from the whole, or it is not complete in the beginning yet. -/
theorem dropByteOrderMark_append (a b : Bytes) :
    dropByteOrderMark (a ++ b) = dropByteOrderMark a ++ b ∨
      look (dropByteOrderMark a) = .ok .nothing ∧ (dropByteOrderMark (a ++ b)).length < b.length := by
  by_cases hmark : ∃ rest, a ++ b = 0xEF :: 0xBB :: 0xBF :: rest
  · obtain ⟨rest, hmark⟩ := hmark
    rw [hmark]
    match a with
    | [] =>
      rw [List.nil_append] at hmark
      have hshorter : rest.length < b.length := by
        rw [hmark]
        simp only [List.length_cons]
        omega
      exact .inr ⟨look_nil, hshorter⟩
    | [x] =>
      obtain ⟨rfl, rfl⟩ : x = 0xEF ∧ b = 0xBB :: 0xBF :: rest := by simpa using hmark
      have hpart : look [0xEF] = .ok .nothing := look_text (List.forall_mem_singleton.mpr (by decide))
      have hshorter : rest.length < (0xBB :: 0xBF :: rest : Bytes).length := by
        simp only [List.length_cons]
        omega
      exact .inr ⟨hpart, hshorter⟩
    | [x, y] =>
      obtain ⟨rfl, rfl, rfl⟩ : x = 0xEF ∧ y = 0xBB ∧ b = 0xBF :: rest := by simpa using hmark
      have hpart : look [0xEF, 0xBB] = .ok .nothing :=
        look_text (List.forall_mem_cons.mpr ⟨by decide, List.forall_mem_singleton.mpr (by decide)⟩)
      exact .inr ⟨hpart, Nat.lt_succ_self rest.length⟩
    | x :: y :: z :: a =>
      obtain ⟨rfl, rfl, rfl, rfl⟩ : x = 0xEF ∧ y = 0xBB ∧ z = 0xBF ∧ a ++ b = rest := by simpa using hmark
      exact .inl rfl
  · have hplain : ∀ {bytes : Bytes}, (∀ rest, bytes ≠ 0xEF :: 0xBB :: 0xBF :: rest) →
        dropByteOrderMark bytes = bytes := by
      intro bytes h
      unfold dropByteOrderMark
      split
      · exact absurd rfl (h _)
      · rfl
    left
    rw [hplain (fun rest h => hmark ⟨rest, h⟩), hplain (fun rest h => hmark ⟨rest ++ b, by rw [h]; rfl⟩)]

theorem sniffPart_eq_none_iff {bytes : Bytes} :
    sniffPart bytes = .ok none ↔ Pending (look (dropByteOrderMark bytes)) := by
  unfold sniffPart Pending
  split <;> simp_all

theorem sniff_of_look {bytes a : Bytes} (hlook : look (dropByteOrderMark bytes) = look (dropByteOrderMark a))
    (ha : ¬ Pending (look (dropByteOrderMark a))) : sniff bytes = sniffPart a := by
  unfold sniff sniffPart
  rw [hlook]
  unfold Pending at ha
  split <;> simp_all

/-- The beginning of a document names it as the whole does, or it is too short for that. -/
theorem sniffPart_append (a b : Bytes) : sniffPart a = .ok none ∨ sniff (a ++ b) = sniffPart a := by
  by_cases hpending : Pending (look (dropByteOrderMark a))
  · exact .inl (sniffPart_eq_none_iff.mpr hpending)
  · right
    apply sniff_of_look _ hpending
    rcases dropByteOrderMark_append a b with hdrop | ⟨hnothing, -⟩
    · rw [hdrop]
      exact (look_append _ b).resolve_left hpending
    · exact absurd (.inl hnothing) hpending

/-- The first start tag of a document, if it has one, ends within this number of bytes. -/
def StartsWithin (limit : Nat) (bytes : Bytes) : Prop :=
  ∃ after, Opens (dropByteOrderMark bytes) after ∧ bytes.length ≤ limit + after.length

theorem StartsWithin.sniffPart_ne {limit : Nat} {a b : Bytes} (h : StartsWithin limit (a ++ b))
    (hlimit : limit ≤ a.length) : sniffPart a ≠ .ok none := by
  obtain ⟨after, hopens, hle⟩ := h
  rw [List.length_append] at hle
  have hafter : b.length ≤ after.length := by omega
  rw [Ne, sniffPart_eq_none_iff]
  rcases dropByteOrderMark_append a b with hdrop | ⟨-, hshort⟩
  · exact (hdrop ▸ hopens).not_pending hafter
  · exact absurd hopens.shorter (by omega)

namespace Reader

open Token

variable {r : Reader} {t : Token} {p : Progress} {bytes : Bytes} {e : Element} {tag : StartTag}

/-- The root that is open, or was read, has this tag. -/
def Progress.Rooted (tag : StartTag) : Progress → Prop
  | .reading r => (r.opened.map (·.tag)).getLast? = some tag
  | .finished e => e.tag = tag

theorem map_tag_addNode (n : Node) (os : List OpenElement) : (addNode n os).map (·.tag) = os.map (·.tag) := by
  cases os <;> rfl

theorem rooted_attach (e : Element) (h : (r.opened.map (·.tag)).getLast? = some tag) : (r.attach e).Rooted tag := by
  obtain ⟨scopes, opened⟩ := r
  cases opened with
  | nil => cases h
  | cons o os => exact (congrArg List.getLast? (map_tag_addNode e.toNode (o :: os))).trans h

theorem Fed.rooted (h : (Progress.reading r).Rooted tag) (hfed : Fed r t p) : p.Rooted tag := by
  obtain ⟨scopes, opened⟩ := r
  cases hfed with
  | opens read =>
    cases opened with
    | nil => cases h
    | cons o os => exact h
  | childless read => exact rooted_attach _ h
  | @closes o os innermost =>
    cases innermost
    cases os with
    | nil => exact Option.some.inj h
    | cons outer os => exact rooted_attach (r := ⟨scopes.tail, outer :: os⟩) _ h
  | adds within text => exact (congrArg List.getLast? (map_tag_addNode _ _)).trans h
  | passes within => exact h

theorem exists_of_run (h : r.run bytes = .ok e) :
    ∃ t rest p, next bytes = .ok (some (t, rest)) ∧ r.feed t = .ok p ∧ p.resume rest = .ok e := by
  cases hnext : next bytes with
  | error cause =>
    rw [run] at h
    split at h <;> simp_all
  | ok found =>
    cases found with
    | none =>
      rw [run] at h
      split at h <;> simp_all
    | some found =>
      obtain ⟨t, rest⟩ := found
      rw [run_eq r hnext] at h
      obtain ⟨p, hfeed, hresume⟩ := ok_of_bind h
      exact ⟨t, rest, p, rfl, hfeed, hresume⟩

/-- Nothing in front of the root is kept, and the root keeps its tag. -/
theorem opens_of_run {bytes : Bytes} (h : initial.run bytes = .ok e) :
    ∃ after, Opens bytes after ∧ look bytes = .ok (.named e.name) := by
  obtain ⟨t, rest, p, hnext, hfeed, hresume⟩ := exists_of_run h
  cases fed_of_feed hfeed with
  | @opens content tag read =>
    have hopened : (Progress.reading ⟨[tag.declarations], [⟨StartTag.rawName content, tag, []⟩]⟩).Rooted
      tag := rfl
    have hroot : (Progress.finished e).Rooted tag := run_keeps Fed.rooted hopened hresume
    have hlook : look bytes = (StartTag.read [] content).map (.named ·.name) := look_of_next hnext
    refine ⟨rest, .here hnext trivial, ?_⟩
    rw [hlook, show StartTag.read [] content = .ok tag from read, ← hroot]
    rfl
  | @childless content tag read =>
    cases hresume
    have hlook : look bytes = (StartTag.read [] content).map (.named ·.name) := look_of_next hnext
    refine ⟨rest, .here hnext trivial, ?_⟩
    rw [hlook, show StartTag.read [] content = .ok tag from read]
    rfl
  | closes innermost => cases innermost
  | adds within text =>
    have hpassed : t.Passed := by rcases within with ⟨raw, rfl⟩ | ⟨content, rfl⟩ <;> trivial
    obtain ⟨after, hopens, hlook⟩ := opens_of_run hresume
    exact ⟨after, .behind hnext hpassed hopens, (look_passed hnext hpassed).trans hlook⟩
  | passes within =>
    have hpassed : t.Passed := by rcases within with ⟨raw, rfl⟩ | rfl | rfl <;> trivial
    obtain ⟨after, hopens, hlook⟩ := opens_of_run hresume
    exact ⟨after, .behind hnext hpassed hopens, (look_passed hnext hpassed).trans hlook⟩
termination_by bytes.length
decreasing_by all_goals exact next_shorter hnext

end Reader

/-- A document that can be read is named by its root. -/
theorem sniff_of_parse {bytes : Bytes} {e : Element} (h : Element.parse bytes = .ok e) :
    sniff bytes = .ok (some e.name) := by
  obtain ⟨after, -, hlook⟩ := Reader.opens_of_run h
  rw [sniff, hlook]

theorem startsWithin_of_parse {bytes : Bytes} {e : Element} {limit : Nat} (h : Element.parse bytes = .ok e)
    (hlimit : bytes.length ≤ limit) : StartsWithin limit bytes := by
  obtain ⟨after, hopens, -⟩ := Reader.opens_of_run h
  exact ⟨after, hopens, Nat.le_add_right_of_le hlimit⟩

end SoapNode
