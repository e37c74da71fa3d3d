import ColumnFlow.Expression.Printer
import ColumnFlow.Proofs.Expression.Lexing
import ColumnFlow.Proofs.Expression.Tree

/-!
# The constructor form can be read back

A constructor form begins with a name: an identifier, or the name of a constructor. What stands
after the name tells the two apart, also where an identifier is called like a constructor. So a
text that begins with a constructor form, and goes on with a comma or a bracket, determines the tree
and the rest of the text.
-/
namespace ColumnFlow.Expr
open Expression

/-- The name at the start of the constructor form. -/
def constructorName : Expr → List Char
  | .identifier name _ => name.toList
  | .chain _ => "Sequential".toList
  | .group _ | .other _ => "Parallel".toList

/-- What the constructor form has after its name. -/
def constructorOperands : Expr → List Char
  | .identifier _ _ => []
  | .chain xs | .group xs | .other xs =>
    '(' :: '[' :: (separated ", ".toList (constructorsAll xs) ++ [']', ')'])

/-- A text that can stand after an operand of a constructor. -/
def EndsOperand (rest : List Char) : Prop := ∀ c ∈ rest.head?, c = ',' ∨ c = ']'

variable {a b : Expr} {xs ys : List Expr} {rest rest' : List Char}

theorem constructorChars_chain (xs : List Expr) :
    (Expr.chain xs).constructorChars =
      "Sequential([".toList ++ separated ", ".toList (constructorsAll xs) ++ "])".toList := rfl

theorem constructorChars_group (xs : List Expr) :
    (Expr.group xs).constructorChars =
      "Parallel([".toList ++ separated ", ".toList (constructorsAll xs) ++ "])".toList := rfl

theorem constructorChars_eq (h : a.WellFormed) :
    a.constructorChars = (Token.name a.constructorName).chars ++ a.constructorOperands := by
  have hchain : "Sequential([".toList = "Sequential".toList ++ ['(', '['] := by decide
  have hgroup : "Parallel([".toList = "Parallel".toList ++ ['(', '['] := by decide
  have hend : "])".toList = [']', ')'] := by decide
  cases h with
  | identifier position hname => exact (List.append_nil _).symm
  | chain _ _ =>
    rw [constructorChars_chain, hchain, hend, List.append_assoc, List.append_assoc]
    rfl
  | group _ _ =>
    rw [constructorChars_group, hgroup, hend, List.append_assoc, List.append_assoc]
    rfl

theorem constructorName_valid (h : a.WellFormed) : (Token.name a.constructorName).Valid := by
  cases h with
  | identifier position hname => exact hname
  | chain _ _ => exact (by decide : isName "Sequential".toList = true)
  | group _ _ => exact (by decide : isName "Parallel".toList = true)

/-- The name is as long as it can be. -/
theorem munch_constructorChars (h : a.WellFormed) (hrest : EndsOperand rest) :
    munch (a.constructorChars ++ rest) = some (.name a.constructorName) := by
  rw [constructorChars_eq h, List.append_assoc]
  refine munch_chars_append (constructorName_valid h) fun _ _ c more hc => ?_
  cases h with
  | identifier position hname =>
    obtain rfl : rest = c :: more := hc
    rcases hrest c rfl with rfl | rfl <;> decide
  | chain _ _ | group _ _ =>
    obtain ⟨rfl, -⟩ := List.cons.inj hc
    decide

theorem EndsOperand.not_opening (h : EndsOperand ('(' :: rest)) : False := by
  rcases h '(' rfl with h | h <;> revert h <;> decide

/-- Texts that begin with constructor forms are equal as far as the names go. -/
theorem constructorOperands_append (ha : a.WellFormed) (hb : b.WellFormed)
    (hrest : EndsOperand rest) (hrest' : EndsOperand rest')
    (h : a.constructorChars ++ rest = b.constructorChars ++ rest') :
    a.constructorName = b.constructorName ∧
      a.constructorOperands ++ rest = b.constructorOperands ++ rest' := by
  have hname : a.constructorName = b.constructorName := by
    have hmunch := munch_constructorChars hb hrest'
    rw [← h, munch_constructorChars ha hrest] at hmunch
    exact Token.name.inj (Option.some.inj hmunch)
  rw [constructorChars_eq ha, constructorChars_eq hb, hname, List.append_assoc,
    List.append_assoc] at h
  exact ⟨hname, List.append_cancel_left h⟩

/-- The text of an operand tells the operand and where it ends. -/
def Decodes (x : Expr) : Prop :=
  ∀ {y : Expr}, y.WellFormed → ∀ {rest rest' : List Char}, EndsOperand rest → EndsOperand rest' →
    x.constructorChars ++ rest = y.constructorChars ++ rest' → x.same y = true ∧ rest = rest'

/-- Operands with separators between them can be told apart, up to a closing bracket. -/
theorem separated_constructors_append (ih : ∀ x ∈ xs, x.Decodes) (hxs : xs ≠ []) (hys : ys ≠ [])
    (hwf : ∀ y ∈ ys, y.WellFormed)
    (h : separated ", ".toList (constructorsAll xs) ++ ']' :: rest =
      separated ", ".toList (constructorsAll ys) ++ ']' :: rest') :
    sameAll xs ys = true ∧ rest = rest' := by
  have hcomma : ", ".toList = [',', ' '] := by decide
  have hends : ∀ cs, EndsOperand (',' :: cs) ∧ EndsOperand (']' :: cs) := by simp [EndsOperand]
  induction xs generalizing ys with
  | nil => exact absurd rfl hxs
  | cons x xs ihs =>
    cases ys with
    | nil => exact absurd rfl hys
    | cons y ys =>
      have hx : ∀ {r t : List Char}, EndsOperand r → EndsOperand t →
          x.constructorChars ++ r = y.constructorChars ++ t → x.same y = true ∧ r = t :=
        ih x (by simp) (hwf y (by simp))
      -- What follows the first operands says whether there are more.
      rcases xs with _ | ⟨x', xs⟩ <;> rcases ys with _ | ⟨y', ys⟩ <;>
        simp only [constructorsAll, separated, hcomma, List.append_assoc, List.cons_append,
          List.nil_append] at h
      · obtain ⟨hsame, hrest⟩ := hx (hends _).2 (hends _).2 h
        exact ⟨by simp [sameAll, hsame], (List.cons.inj hrest).2⟩
      · exact absurd (hx (hends _).2 (hends _).1 h).2 (by simp)
      · exact absurd (hx (hends _).1 (hends _).2 h).2 (by simp)
      · obtain ⟨hsame, hmore⟩ := hx (hends _).1 (hends _).1 h
        obtain ⟨hall, hrest⟩ := ihs (fun z hz => ih z (by simp [hz])) (by simp)
          (List.cons_ne_nil y' ys) (fun z hz => hwf z (by simp [hz]))
          (by rw [hcomma]; exact (List.cons.inj (List.cons.inj hmore).2).2)
        exact ⟨by rw [sameAll, hsame, hall]; rfl, hrest⟩

theorem constructorOperands_inj (ih : ∀ x ∈ xs, x.Decodes) (hxs : 2 ≤ xs.length)
    (hys : 2 ≤ ys.length) (hwf : ∀ y ∈ ys, y.WellFormed)
    (h : (Expr.chain xs).constructorOperands ++ rest =
      (Expr.chain ys).constructorOperands ++ rest') :
    sameAll xs ys = true ∧ rest = rest' := by
  have hne : ∀ {zs : List Expr}, 2 ≤ zs.length → zs ≠ [] := fun hzs =>
    List.ne_nil_of_length_pos (Nat.lt_of_lt_of_le Nat.zero_lt_two hzs)
  simp only [constructorOperands, List.append_assoc, List.cons_append, List.nil_append,
    List.cons.injEq, true_and] at h
  obtain ⟨hall, hmore⟩ := separated_constructors_append ih (hne hxs) (hne hys) hwf h
  exact ⟨hall, (List.cons.inj hmore).2⟩

theorem WellFormed.decodes (h : a.WellFormed) : a.Decodes := by
  have hkinds : "Sequential".toList ≠ "Parallel".toList := by decide
  induction h with
  | identifier position hx =>
    intro b hb rest rest' hrest hrest' h
    obtain ⟨hname, hoperands⟩ :=
      constructorOperands_append (.identifier position hx) hb hrest hrest' h
    cases hb with
    | identifier _ _ => exact ⟨beq_iff_eq.2 (String.toList_inj.1 hname), hoperands⟩
    | chain _ _ | group _ _ =>
      obtain rfl : rest = _ := hoperands
      exact hrest.not_opening.elim
  | chain hlen hxs ih =>
    intro b hb rest rest' hrest hrest' h
    obtain ⟨hname, hoperands⟩ := constructorOperands_append (.chain hlen hxs) hb hrest hrest' h
    cases hb with
    | identifier _ _ =>
      obtain rfl : _ = rest' := hoperands
      exact hrest'.not_opening.elim
    | chain hlen' hys => exact constructorOperands_inj ih hlen hlen' hys hoperands
    | group _ _ => exact absurd hname hkinds
  | group hlen hxs ih =>
    intro b hb rest rest' hrest hrest' h
    obtain ⟨hname, hoperands⟩ := constructorOperands_append (.group hlen hxs) hb hrest hrest' h
    cases hb with
    | identifier _ _ =>
      obtain rfl : _ = rest' := hoperands
      exact hrest'.not_opening.elim
    | chain _ _ => exact absurd hname.symm hkinds
    | group hlen' hys => exact constructorOperands_inj ih hlen hlen' hys hoperands

theorem constructorsAll_unplaced
    (ih : ∀ x ∈ xs, x.unplaced.constructorChars = x.constructorChars) :
    constructorsAll (xs.map unplaced) = constructorsAll xs := by
  induction xs with
  | nil => rfl
  | cons x xs ihs =>
    rw [List.map_cons, constructorsAll, constructorsAll, ih x (by simp),
      ihs fun y hy => ih y (by simp [hy])]

theorem constructorChars_unplaced (e : Expr) :
    e.unplaced.constructorChars = e.constructorChars := by
  induction e using induction with
  | identifier name position => rw [unplaced]; rfl
  | chain xs ih =>
    rw [unplaced, constructorChars_chain, constructorChars_chain, constructorsAll_unplaced ih]
  | group xs ih =>
    rw [unplaced, constructorChars_group, constructorChars_group, constructorsAll_unplaced ih]
  | other xs ih =>
    rw [unplaced]
    exact congrArg (fun parts => "Parallel([".toList ++ separated ", ".toList parts ++ "])".toList)
      (constructorsAll_unplaced ih)

/-- Trees that stand for a text have equal constructor forms only if they are the same, whatever
their identifiers are called. -/
theorem constructors_eq_iff (ha : a.WellFormed) (hb : b.WellFormed) :
    a.constructors = b.constructors ↔ a.same b = true := by
  rw [constructors, constructors, String.ofList_inj]
  constructor
  · intro h
    have hnil : EndsOperand [] := by simp [EndsOperand]
    exact (ha.decodes hb hnil hnil (by rw [h])).1
  · intro h
    rw [← constructorChars_unplaced a, ← constructorChars_unplaced b, (same_iff a b).1 h]

end ColumnFlow.Expr
