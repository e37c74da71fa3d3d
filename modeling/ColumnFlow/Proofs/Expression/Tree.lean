import ColumnFlow.Expression.Basic
import ColumnFlow.Expression.Token

/-!
# Expression trees

Induction over expressions, equality up to positions as equality of the trees without positions, and
the trees that stand for a text: all identifiers are names, and every chain and group has at least
two operands.
-/
namespace ColumnFlow.Expr
open Expression

theorem induction {motive : Expr → Prop}
    (identifier : ∀ name position, motive (.identifier name position))
    (chain : ∀ xs, (∀ x ∈ xs, motive x) → motive (.chain xs))
    (group : ∀ xs, (∀ x ∈ xs, motive x) → motive (.group xs))
    (other : ∀ xs, (∀ x ∈ xs, motive x) → motive (.other xs)) (e : Expr) : motive e := by
  match e with
  | .identifier name position => exact identifier name position
  | .chain xs => exact chain xs fun x _ => induction identifier chain group other x
  | .group xs => exact group xs fun x _ => induction identifier chain group other x
  | .other xs => exact other xs fun x _ => induction identifier chain group other x

/-- The expression with all positions at zero. -/
def unplaced : Expr → Expr
  | .identifier name _ => .identifier name 0
  | .chain xs => .chain (xs.map unplaced)
  | .group xs => .group (xs.map unplaced)
  | .other xs => .other (xs.map unplaced)

theorem sameAll_iff {xs : List Expr}
    (h : ∀ x ∈ xs, ∀ y, same x y = true ↔ x.unplaced = y.unplaced) (ys : List Expr) :
    sameAll xs ys = true ↔ xs.map unplaced = ys.map unplaced := by
  induction xs generalizing ys with
  | nil => cases ys <;> simp [sameAll]
  | cons x xs ih =>
    cases ys with
    | nil => simp [sameAll]
    | cons y ys =>
      simp only [sameAll, Bool.and_eq_true, List.map_cons, List.cons.injEq]
      rw [h x (by simp) y, ih (fun z hz => h z (by simp [hz])) ys]

theorem same_iff (a b : Expr) : same a b = true ↔ a.unplaced = b.unplaced := by
  induction a using induction generalizing b with
  | identifier name position => cases b <;> simp [same, unplaced]
  | chain xs ih => cases b <;> simp [same, unplaced, sameAll_iff ih]
  | group xs ih => cases b <;> simp [same, unplaced, sameAll_iff ih]
  | other xs ih => cases b <;> simp [same, unplaced, sameAll_iff ih]

theorem sameAll_iff_map {xs ys : List Expr} :
    sameAll xs ys = true ↔ xs.map unplaced = ys.map unplaced :=
  sameAll_iff (fun x _ y => same_iff x y) ys

theorem same_refl (a : Expr) : a.same a = true := (same_iff a a).2 rfl

theorem same_symm {a b : Expr} (h : a.same b = true) : b.same a = true :=
  (same_iff b a).2 ((same_iff a b).1 h).symm

theorem same_trans {a b c : Expr} (h : a.same b = true) (h' : b.same c = true) :
    a.same c = true :=
  (same_iff a c).2 (((same_iff a b).1 h).trans ((same_iff b c).1 h'))

theorem unplaced_ofSteps (xs : List Expr) :
    (ofSteps xs).unplaced = ofSteps (xs.map unplaced) := by
  rcases xs with _ | ⟨x, _ | ⟨y, xs⟩⟩ <;> simp [ofSteps, unplaced]

theorem unplaced_ofMembers (xs : List Expr) :
    (ofMembers xs).unplaced = ofMembers (xs.map unplaced) := by
  rcases xs with _ | ⟨x, _ | ⟨y, xs⟩⟩ <;> simp [ofMembers, unplaced]

theorem same_ofSteps {xs ys : List Expr} (h : sameAll xs ys = true) :
    (ofSteps xs).same (ofSteps ys) = true := by
  rw [same_iff, unplaced_ofSteps, unplaced_ofSteps, sameAll_iff_map.1 h]

theorem same_ofMembers {xs ys : List Expr} (h : sameAll xs ys = true) :
    (ofMembers xs).same (ofMembers ys) = true := by
  rw [same_iff, unplaced_ofMembers, unplaced_ofMembers, sameAll_iff_map.1 h]

/-- The trees that stand for a text. -/
inductive WellFormed : Expr → Prop
  | identifier {name : String} (position : Int) :
      isName name.toList = true → WellFormed (.identifier name position)
  | chain {xs : List Expr} :
      2 ≤ xs.length → (∀ x ∈ xs, WellFormed x) → WellFormed (.chain xs)
  | group {xs : List Expr} :
      2 ≤ xs.length → (∀ x ∈ xs, WellFormed x) → WellFormed (.group xs)

theorem wellFormed_ofSteps {xs : List Expr} (hne : xs ≠ []) (h : ∀ x ∈ xs, x.WellFormed) :
    (ofSteps xs).WellFormed := by
  rcases xs with _ | ⟨x, _ | ⟨y, xs⟩⟩
  · exact absurd rfl hne
  · exact h x (by simp)
  · exact .chain (by simp) h

theorem wellFormed_ofMembers {xs : List Expr} (hne : xs ≠ []) (h : ∀ x ∈ xs, x.WellFormed) :
    (ofMembers xs).WellFormed := by
  rcases xs with _ | ⟨x, _ | ⟨y, xs⟩⟩
  · exact absurd rfl hne
  · exact h x (by simp)
  · exact .group (by simp) h

theorem ofSteps_of_two_le {xs : List Expr} (h : 2 ≤ xs.length) : ofSteps xs = .chain xs := by
  rcases xs with _ | ⟨x, _ | ⟨y, xs⟩⟩
  · simp at h
  · simp at h
  · rfl

theorem ofMembers_of_two_le {xs : List Expr} (h : 2 ≤ xs.length) : ofMembers xs = .group xs := by
  rcases xs with _ | ⟨x, _ | ⟨y, xs⟩⟩
  · simp at h
  · simp at h
  · rfl

theorem identifiersAll_singleton (e : Expr) : identifiersAll [e] = e.identifiers := by
  rw [identifiersAll, identifiersAll, List.append_nil]

theorem identifiersAll_append (es fs : List Expr) :
    identifiersAll (es ++ fs) = identifiersAll es ++ identifiersAll fs := by
  induction es with
  | nil => rfl
  | cons e es ih => rw [List.cons_append, identifiersAll, identifiersAll, ih, List.append_assoc]

theorem identifiers_ofSteps (es : List Expr) : (ofSteps es).identifiers = identifiersAll es := by
  rcases es with _ | ⟨e, _ | ⟨f, es⟩⟩
  · rfl
  · exact (identifiersAll_singleton e).symm
  · rfl

theorem identifiers_ofMembers (es : List Expr) :
    (ofMembers es).identifiers = identifiersAll es := by
  rcases es with _ | ⟨e, _ | ⟨f, es⟩⟩
  · rfl
  · exact (identifiersAll_singleton e).symm
  · rfl

end ColumnFlow.Expr
