/-!
# Ascending lists

A set as a list in ascending order without repetitions. The order is one of display only.
-/

namespace SoapNode.Ascending

variable {α : Type} [LT α] [DecidableRel (α := α) (· < ·)] [DecidableEq α]

def insert (a : α) : List α → List α
  | [] => [a]
  | b :: l => if a = b then b :: l else if a < b then a :: b :: l else b :: insert a l

def ofList (l : List α) : List α := l.foldr insert []

end SoapNode.Ascending
