import SoapNode.Error
import SoapNode.Xml.Sniff

/-!
# Byte sources

A source hands out its bytes in pieces. `pieces` are the sizes it picks for its next reads; after
them it gives as much as is asked for. At the end it either stops or breaks. `sniffSource` pulls
pieces until the start tag of the document element is complete, and keeps every byte that it pulled,
whatever comes out.
-/

namespace SoapNode

structure Source where
  rest : Bytes
  pieces : List Nat
  breaks : Bool
  deriving DecidableEq, Repr

namespace Source

def ofBytes (bytes : Bytes) : Source := ⟨bytes, [], false⟩

/-- A source of these bytes that breaks at an offset, unless it ends before. -/
def breakingAt (bytes : Bytes) (offset : Nat) (pieces : List Nat) : Source :=
  if offset ≤ bytes.length then ⟨bytes.take offset, pieces, true⟩ else ⟨bytes, pieces, false⟩

def failure : RuntimeError := .io "the source broke off"

/-- One read of at most `room` bytes; no bytes mean the end. A piece has at least one byte. -/
def read (s : Source) (room : Nat) : Except RuntimeError (Bytes × Source) :=
  match s.rest with
  | [] => if s.breaks then .error failure else .ok ([], s)
  | _ :: _ =>
    let size := match s.pieces with
      | [] => room
      | p :: _ => min room (max 1 p)
    .ok (s.rest.take size, { s with rest := s.rest.drop size, pieces := s.pieces.tail })

def readAll (s : Source) : Except RuntimeError Bytes := if s.breaks then .error failure else .ok s.rest

theorem read_append {s t : Source} {room : Nat} {piece : Bytes} (h : s.read room = .ok (piece, t)) :
    piece ++ t.rest = s.rest := by
  unfold read at h
  split at h
  · split at h
    · simp at h
    · simp at h; obtain ⟨rfl, rfl⟩ := h; simp
  · simp at h; obtain ⟨rfl, rfl⟩ := h; simp

theorem rest_shorter {s t : Source} {room : Nat} {b : UInt8} {piece : Bytes}
    (h : s.read room = .ok (b :: piece, t)) : t.rest.length < s.rest.length := by
  rw [← read_append h]
  simp only [List.length_append, List.length_cons]
  omega

end Source

/-- The number of bytes within which the payload element has to start. -/
def sniffLimit : Nat := 65536

def sniffPiece : Nat := 4096

def sniffSource (pulled : Bytes) (s : Source) : Except RuntimeError (Option QName) × Bytes × Source :=
  match sniffPart pulled with
  | .error e => (.error (.xml e), pulled, s)
  | .ok (some q) => (.ok (some q), pulled, s)
  | .ok none =>
    if sniffLimit ≤ pulled.length then (.error (.xml (.noStartWithin sniffLimit)), pulled, s)
    else match _h : s.read sniffPiece with
      | .error e => (.error e, pulled, s)
      | .ok ([], s) => ((sniff pulled).mapError .xml, pulled, s)
      | .ok (b :: piece, s) => sniffSource (pulled ++ b :: piece) s
termination_by s.rest.length
decreasing_by exact Source.rest_shorter (by assumption)

end SoapNode
