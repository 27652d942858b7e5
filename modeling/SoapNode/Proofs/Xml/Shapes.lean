import SoapNode.Proofs.Text.Trim
import SoapNode.Proofs.Xml.Detach

/-!
# Elements around elements and elements around a text

Most elements that are put together hold either elements alone or one text. Written and read, the
former keep their children, each settled in its own scopes, and the latter keep their text up to
trimming.
-/

namespace SoapNode

namespace Element

def around (tag : StartTag) (es : List Element) : Element := ⟨tag, es.map toNode⟩

def telling (tag : StartTag) (text : String) : Element := ⟨tag, [.text text]⟩

@[simp] theorem push_around (tag : StartTag) (es : List Element) (e : Element) :
    (around tag es).push e = around tag (es ++ [e]) := by
  simp [around, push]

theorem pushText_around_nil (tag : StartTag) (text : String) : (around tag []).pushText text = telling tag text := rfl

@[simp] theorem elements_around (tag : StartTag) (es : List Element) : (around tag es).elements = es := by
  rw [around, elements, List.filterMap_map]
  exact List.filterMap_some

theorem child?_around_self (tag : StartTag) (e : Element) (es : List Element) :
    (around tag (e :: es)).child? e.name = some e := by
  rw [child?, elements_around]
  exact List.find?_cons_of_pos (beq_self_eq_true e.name)

theorem child?_around_of_ne {e : Element} {name : QName} (h : e.name ≠ name) (tag : StartTag) (es : List Element) :
    (around tag (e :: es)).child? name = (around tag es).child? name := by
  rw [child?, child?, elements_around, elements_around]
  exact List.find?_cons_of_neg (mt beq_iff_eq.mp h)

theorem foldl_push_around (tag : StartTag) (es es' : List Element) :
    es'.foldl push (around tag es) = around tag (es ++ es') := by
  induction es' generalizing es with
  | nil => rw [List.foldl_nil, List.append_nil]
  | cons e es' ih => rw [List.foldl_cons, push_around, ih, List.append_assoc, List.singleton_append]

theorem allWritable_map_toNode {es : List Element} : Node.AllWritable (es.map toNode) ↔ ∀ e ∈ es, e.Writable := by
  induction es with
  | nil => simp [Node.AllWritable]
  | cons e es ih =>
    rw [List.map_cons, Node.AllWritable, ih, List.forall_mem_cons]
    rfl

theorem writable_around {tag : StartTag} {es : List Element} :
    (around tag es).Writable ↔ tag.Writable ∧ ∀ e ∈ es, e.Writable := by
  rw [← allWritable_map_toNode]
  rfl

theorem writable_telling {tag : StartTag} {text : String} : (telling tag text).Writable ↔ tag.Writable :=
  ⟨fun h => h.1, fun h => ⟨h, trivial, trivial⟩⟩

theorem settleAll_map_toNode (outer : Scopes) (es : List Element) :
    Node.settleAll outer "" (es.map toNode) = (es.map (·.settle outer)).map toNode := by
  induction es with
  | nil => rfl
  | cons e es ih =>
    rw [List.map_cons, List.map_cons, List.map_cons, ← ih]
    rfl

theorem settle_around (outer : Scopes) (tag : StartTag) (es : List Element) :
    (around tag es).settle outer =
      around (tag.settle (tag.writtenFrame outer)) (es.map (·.settle (tag.writtenFrame outer :: outer))) := by
  rw [around, around, settle, settleAll_map_toNode]

theorem find?_elements_settle {p : Element → Bool} (hp : ∀ outer e, p (e.settle outer) = p e) (outer : Scopes)
    (tag : StartTag) (es : List Element) :
    ((around tag es).settle outer).elements.find? p =
      (es.find? p).map (·.settle (tag.writtenFrame outer :: outer)) := by
  have hcomp : (p ∘ fun e => e.settle (tag.writtenFrame outer :: outer)) = p := funext (hp _)
  rw [settle_around, elements_around, List.find?_map, hcomp]

theorem child?_settle (name : QName) (outer : Scopes) (tag : StartTag) (es : List Element) :
    ((around tag es).settle outer).child? name =
      (es.find? (·.name == name)).map (·.settle (tag.writtenFrame outer :: outer)) :=
  find?_elements_settle (fun _ _ => rfl) outer tag es

theorem childLocal?_settle (localPart : String) (outer : Scopes) (tag : StartTag) (es : List Element) :
    ((around tag es).settle outer).childLocal? localPart =
      (es.find? (·.name.localPart == localPart)).map (·.settle (tag.writtenFrame outer :: outer)) :=
  find?_elements_settle (fun _ _ => rfl) outer tag es

theorem find?_optional {p : Element → Bool} {o : Option Element} {b : Bool} (h : ∀ e ∈ o, p e = b) :
    o.toList.find? p = if b then o else none := by
  cases o with
  | none => simp
  | some e =>
    have he : p e = b := h e rfl
    cases b with
    | false => simp [he]
    | true => simp [he]

theorem find?_optional_telling {p : Element → Bool} {tag : StartTag} {b : Bool}
    (hp : ∀ text, p (telling tag text) = b) (o : Option String) :
    (o.map (telling tag)).toList.find? p = if b then o.map (telling tag) else none := by
  apply find?_optional
  intro e he
  obtain ⟨text, _, rfl⟩ := Option.map_eq_some_iff.mp he
  exact hp text

theorem textContent_telling (tag : StartTag) (text : String) : (telling tag text).textContent = Text.trim text := by
  show Text.trim ("" ++ text) = _
  rw [String.empty_append]

theorem textContent_settle (outer : Scopes) (tag : StartTag) (text : String) :
    ((telling tag text).settle outer).textContent = Text.trim text := by
  have hchildren : ((telling tag text).settle outer).children = Node.ofRun text := by
    show Node.ofRun ("" ++ text) = _
    rw [String.empty_append]
  rw [textContent, hchildren, Node.ofRun]
  by_cases hblank : Text.blank text = true
  · rw [if_pos hblank, Text.trim_of_blank hblank]
    rfl
  · rw [if_neg hblank]
    show Text.trim ("" ++ text) = _
    rw [String.empty_append]

theorem declarations_settle (outer : Scopes) (e : Element) :
    (e.settle outer).declarations = e.tag.writtenFrame outer := rfl

end Element

end SoapNode
