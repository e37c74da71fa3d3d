import ColumnFlow.Proofs.Expression.Constructors
import ColumnFlow.Proofs.Expression.RoundTrip
import ColumnFlow.Proofs.Registry.Fresh

/-!
# Texts of compiled trees

A tree shows itself by the names of its leaves and the kinds of its inner nodes. When all prototypes
are leaves, the copies bear the identifiers, and the text of a compiled tree is the constructor form
of its expression.
-/
namespace ColumnFlow

theorem Expr.separated_eq_intercalate (separator : List Char) (parts : List (List Char)) :
    separated separator parts = separator.intercalate parts := by
  unfold List.intercalate
  induction parts with
  | nil => rfl
  | cons part rest ih =>
    cases rest with
    | nil => simp [separated]
    | cons next rest => simp [separated, ih]

theorem Plan.toList_enclosed (kind : String) (parts : List String) :
    (enclosed kind parts).toList =
      kind.toList ++ "([".toList ++ Expr.separated ", ".toList (parts.map String.toList) ++
        "])".toList := by
  rw [enclosed, Value.joined, String.toList_append, String.toList_append, String.toList_append,
    String.toList_intercalate, Expr.separated_eq_intercalate]

namespace Expr

variable {es : List Expr}

theorem constructorsAll_eq_map (es : List Expr) :
    constructorsAll es = (es.map constructors).map String.toList := by
  induction es with
  | nil => rfl
  | cons e es ih => simp [constructorsAll, constructors, ih]

theorem enclosed_chain (es : List Expr) :
    Plan.enclosed "Sequential" (es.map constructors) = (Expr.chain es).constructors := by
  have hopen : "Sequential([".toList = "Sequential".toList ++ "([".toList := by decide
  rw [← String.toList_inj, Plan.toList_enclosed, constructors, constructorChars_chain,
    constructorsAll_eq_map, hopen]
  exact String.toList_ofList.symm

theorem enclosed_group (es : List Expr) :
    Plan.enclosed "Parallel" (es.map constructors) = (Expr.group es).constructors := by
  have hopen : "Parallel([".toList = "Parallel".toList ++ "([".toList := by decide
  rw [← String.toList_inj, Plan.toList_enclosed, constructors, constructorChars_group,
    constructorsAll_eq_map, hopen]
  exact String.toList_ofList.symm

end Expr

theorem Node.text_of_isLeaf {n : Node} {m : Memory} {x : String} (h : n.isLeaf = true)
    (hlabel : n.label m = .text x) : n.text m = .ok x := by
  have htext : m.text n.site = .ok x := by
    unfold Memory.text
    rw [show m.label n.site = .text x from hlabel]
  obtain ⟨plan, s⟩ := n
  cases plan with
  | transformer _ | learner _ | element _ => exact htext
  | _ => cases h

namespace Registry
open Node

variable {r : Registry} {m v : Memory} {n p : Node} {e : Expr} {es : List Expr} {x : String}

theorem Stocked.of_leaves (hr : r.InUse m) (hleaf : ∀ e ∈ r.prototypes, e.2.isLeaf = true) :
    r.Stocked m where
  single e he := by
    have h := hleaf e he
    rcases e with ⟨x, ⟨plan, s⟩⟩
    cases plan <;> first | exact ⟨rfl, rfl⟩ | cases h
  taken e he i hi := hr i (List.mem_flatMap.2 ⟨e, he, hi⟩)

theorem Cloned.text_eq (h : Cloned m p (.text x) n v) (hp : p.isLeaf = true) :
    n.text v = .ok x := by
  refine text_of_isLeaf ?_ h.label_eq
  obtain ⟨u, u', -, hcopy, -⟩ := h.copy
  obtain ⟨rfl, -⟩ := Prod.mk.inj hcopy
  exact hp

theorem texts_eq (ih : ∀ e ∈ es, ∀ {n}, r.Realizes m v e n → n.text v = .ok e.constructors)
    {nodes : List Node} (h : List.Forall₂ (r.Realizes m v) es nodes) :
    Plan.texts v (plans nodes) (sites nodes) = .ok (es.map Expr.constructors) := by
  induction h with
  | nil => rfl
  | @cons e n es nodes hfirst _ ihs =>
    change (do return (← n.text v) :: (← Plan.texts v (plans nodes) (sites nodes)) : Except _ _) = _
    rw [ih e (by simp) hfirst, ihs fun e he => ih e (by simp [he])]
    rfl

/-- A tree over leaves shows the constructor form of its expression. -/
theorem Realizes.text_eq (hleaf : ∀ e ∈ r.prototypes, e.2.isLeaf = true)
    (h : r.Realizes m v e n) : n.text v = .ok e.constructors := by
  induction e using Expr.induction generalizing n with
  | identifier x i =>
    cases h with
    | identifier hx hclone =>
      rw [hclone.text_eq (hleaf _ (mem_of_lookup hx)), Expr.constructors]
      exact congrArg _ (String.ofList_toList).symm
  | chain es ih =>
    cases h with
    | chain hparts hplan hsite =>
      unfold Node.text
      rw [hplan, Plan.text, hsite, texts_eq ih hparts, ← Expr.enclosed_chain]
      rfl
  | group es ih =>
    cases h with
    | group hparts hplan hsite =>
      unfold Node.text
      rw [hplan, Plan.text, hsite, texts_eq ih hparts, ← Expr.enclosed_group]
      rfl
  | other es ih => cases h

theorem explain_text {t : String} (h : Expression.parse t = .ok e) :
    (ExpressionInput.text t).explain = .ok e.constructors := by
  rw [ExpressionInput.explain, ExpressionInput.expr, h]
  rfl

/-- Over a registry of leaves, a compiled text shows itself as what is told of the text before. The
constructor form says which tree it is: trees have the same form, and texts the same explanation, if
and only if they are equal up to positions. -/
theorem constructor_form_faithful :
    (∀ (r : Registry) (w v : Workspace) (t : String) (n : Node), r.InUse w.memory →
      (∀ e ∈ r.prototypes, e.2.isLeaf = true) → r.compile (.text t) w = (.ok n, v) →
        ∃ shown, n.text v.memory = .ok shown ∧ (ExpressionInput.text t).explain = .ok shown) ∧
    (∀ e e' : Expr, e.WellFormed → e'.WellFormed →
      (e.constructors = e'.constructors ↔ e.same e' = true)) ∧
    ∀ (t t' : String) (e e' : Expr), Expression.parse t = .ok e → Expression.parse t' = .ok e' →
      ((ExpressionInput.text t).explain = (ExpressionInput.text t').explain ↔
        e.same e' = true) := by
  refine ⟨fun r w v t n hr hleaf h => ?_, fun e e' he he' => Expr.constructors_eq_iff he he',
    fun t t' e e' he he' => ?_⟩
  · obtain ⟨e, he, htree, -⟩ := compile_realizes (.of_leaves hr hleaf) h
    exact ⟨e.constructors, htree.text_eq hleaf, explain_text he⟩
  · rw [explain_text he, explain_text he', Except.ok.injEq]
    exact Expr.constructors_eq_iff (Expression.wellFormed_of_parse he)
      (Expression.wellFormed_of_parse he')

/-- A leaf that is called like a constructor is told apart from one. -/
theorem constructor_form_faithful_namesake :
    let step : Node := ⟨.transformer (Passthrough.passthrough []), .mk 0 []⟩
    let r := ((empty.register ⟨.text "Parallel", .node step, .text "", .text "", false⟩).1.register
      ⟨.text "a", .node step, .text "", .text "", false⟩).1
    let w : Workspace := ⟨⟨#[.fresh (.text "step")]⟩, [], false⟩
    r.InUse w.memory ∧ (∀ e ∈ r.prototypes, e.2.isLeaf = true) ∧
      (∃ n v, r.compile (.text "a |> Parallel") w = (.ok n, v) ∧
        n.text v.memory = .ok "Sequential([a, Parallel])") ∧
      (ExpressionInput.text "a |> Parallel").explain =
        (ExpressionInput.text "(a)|>Parallel").explain ∧
      (Expr.chain [.identifier "a" 0, .identifier "Parallel" 5]).constructors ≠
        (Expr.chain
          [.identifier "a" 0, .group [.identifier "a" 5, .identifier "a" 9]]).constructors := by
  intro step r w
  obtain ⟨hshown, hforms, htexts⟩ := constructor_form_faithful
  have hparse : Expression.parse "a |> Parallel" =
      .ok (.chain [.identifier "a" 0, .identifier "Parallel" 5]) := by cbv
  have hparse' : Expression.parse "(a)|>Parallel" =
      .ok (.chain [.identifier "a" 1, .identifier "Parallel" 5]) := by cbv
  have hother : Expression.parse "a |> a + a" =
      .ok (.chain [.identifier "a" 0, .group [.identifier "a" 5, .identifier "a" 9]]) := by cbv
  have hr : r.InUse w.memory := by decide
  have hleaf : ∀ e ∈ r.prototypes, e.2.isLeaf = true := by decide
  obtain ⟨n, v, hn⟩ : ∃ n v, r.compile (.text "a |> Parallel") w = (.ok n, v) := by
    unfold compile
    rw [ExpressionInput.expr, hparse]
    exact ⟨_, _, rfl⟩
  obtain ⟨shown, htext, hexplain⟩ := hshown r w v _ n hr hleaf hn
  rw [explain_text hparse] at hexplain
  refine ⟨hr, hleaf, ⟨n, v, hn, ?_⟩, (htexts _ _ _ _ hparse hparse').2 (by decide), ?_⟩
  · rw [htext, ← hexplain]
    exact congrArg _ (by decide)
  · rw [Ne, hforms _ _ (Expression.wellFormed_of_parse hparse)
      (Expression.wellFormed_of_parse hother)]
    decide

end Registry
end ColumnFlow
