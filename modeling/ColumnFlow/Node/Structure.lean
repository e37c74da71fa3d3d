import ColumnFlow.Value.Basic

/-!
Structures: what can be told of a node tree without its learned state. Two trees have equal
structures when they have the same operators, names and leaf bindings in the same places. A name is
the same in all copies of a node, also one that is not a number.
-/
namespace ColumnFlow

inductive Structure where
  | atomic (name : Label) (binding : String)
  | composite (kind : String) (parts : List Structure)
  | ensemble (strategy : String) (name : Label) (parts : List Structure)
  | stack (name : Label) (parts : List Structure) (stacker : Structure)
  | bagging (name : Label) (count : Int) (template : Structure)

namespace Structure

mutual

def same : Structure → Structure → Bool
  | .atomic n b, .atomic n' b' => n.key == n'.key && b == b'
  | .composite k ps, .composite k' ps' => k == k' && sameAll ps ps'
  | .ensemble s n ps, .ensemble s' n' ps' => s == s' && n.key == n'.key && sameAll ps ps'
  | .stack n ps t, .stack n' ps' t' => n.key == n'.key && sameAll ps ps' && same t t'
  | .bagging n c t, .bagging n' c' t' => n.key == n'.key && c == c' && same t t'
  | _, _ => false

def sameAll : List Structure → List Structure → Bool
  | [], [] => true
  | p :: ps, q :: qs => same p q && sameAll ps qs
  | _, _ => false

end

mutual

/-- The nested tuples that show a structure. -/
def toValue : Structure → Value
  | .atomic n b => .tuple [.text "atomic", .scalar n, .text b]
  | .composite k ps => .tuple [.text k, .tuple (toValues ps)]
  | .ensemble s n ps => .tuple [.text "ensemble", .text s, .scalar n, .tuple (toValues ps)]
  | .stack n ps t =>
    .tuple [.text "ensemble", .text "stack", .scalar n, .tuple (toValues ps), toValue t]
  | .bagging n c t => .tuple [.text "ensemble", .text "bagging", .scalar n, .int c, toValue t]

def toValues : List Structure → List Value
  | [] => []
  | p :: ps => toValue p :: toValues ps

end

end Structure
end ColumnFlow
