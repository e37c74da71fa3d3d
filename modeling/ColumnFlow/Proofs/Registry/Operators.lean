import ColumnFlow.Proofs.Node.Reaching
import ColumnFlow.Proofs.Registry.AllOrNothing

/-!
# Trees from operators

The two operators on nodes take operands of the kind that they build apart, on both sides, so a tree
that is built with them never has a sequence directly in a sequence or a parallel directly in a
parallel. The compiler keeps such operands. The two agree on the flat form of an expression, in
which every operand of the kind around it is replaced by its own operands.
-/
namespace ColumnFlow
open Node

/-- The two ways in which nodes are put together. -/
inductive Connective where
  | chain
  | group

namespace Connective

def kind : Connective → String
  | .chain => "Sequential"
  | .group => "Parallel"

def plan : Connective → List Plan → Plan
  | .chain => .sequential
  | .group => .parallel

def expr : Connective → List Expr → Expr
  | .chain => .chain
  | .group => .group

/-- Whether a node is taken apart when it is an operand. -/
def joins : Connective → Plan → Bool
  | .chain => isSequential
  | .group => isParallel

/-- The operator on nodes. -/
def apply : Connective → Node → Part → Work Node
  | .chain => andThen
  | .group => alongside

/-- What an operand contributes to a composite. -/
def nodes (c : Connective) (n : Node) : List Node := if c.joins n.plan then n.children else [n]

/-- What an operand contributes to an expression. -/
def operandsOf : Connective → Expr → List Expr
  | .chain, .chain es => es
  | .group, .group es => es
  | _, e => [e]

/-- The operands put together from left to right. -/
def fold (c : Connective) : List Node → Work Node
  | [] => throw (.unusable .type)
  | n :: rest => rest.foldlM (fun a b => c.apply a (.node b)) n

end Connective

namespace Expr

mutual

/-- The expression with every operand of the kind around it replaced by its operands. -/
def flatten : Expr → Expr
  | .identifier name position => .identifier name position
  | .chain es => .chain (flatOperands .chain es)
  | .group es => .group (flatOperands .group es)
  | .other es => .other es

def flatOperands (c : Connective) : List Expr → List Expr
  | [] => []
  | e :: es => c.operandsOf (flatten e) ++ flatOperands c es

end

/-- No chain stands directly in a chain, and no group directly in a group. -/
inductive Alternates : Expr → Prop
  | identifier (name : String) (position : Int) : Alternates (.identifier name position)
  | chain {es : List Expr} :
      (∀ e ∈ es, ∀ fs, e ≠ .chain fs) → (∀ e ∈ es, Alternates e) → Alternates (.chain es)
  | group {es : List Expr} :
      (∀ e ∈ es, ∀ fs, e ≠ .group fs) → (∀ e ∈ es, Alternates e) → Alternates (.group es)

end Expr

namespace Registry

mutual

/-- The tree of an expression, built with the operators on nodes. -/
def combine (r : Registry) : Expr → Work Node
  | .identifier name _ => r.create (.text name)
  | .chain operands => do Connective.chain.fold (← combineAll r operands)
  | .group operands => do Connective.group.fold (← combineAll r operands)
  | .other _ => throw (.misplaced (.form "OtherExpr"))

def combineAll (r : Registry) : List Expr → Work (List Node)
  | [] => return []
  | e :: rest => do
    let n ← combine r e
    return n :: (← combineAll r rest)

end

end Registry

namespace Expr

variable {c : Connective} {e : Expr} {es : List Expr}

theorem flatOperands_eq (c : Connective) (es : List Expr) :
    flatOperands c es = (es.map flatten).flatMap c.operandsOf := by
  induction es with
  | nil => rfl
  | cons e es ih => rw [flatOperands, ih, List.map_cons, List.flatMap_cons]

theorem WellFormed.operandsOf (h : e.WellFormed) (c : Connective) :
    c.operandsOf e ≠ [] ∧ ∀ f ∈ c.operandsOf e, f.WellFormed := by
  have hself : [e] ≠ [] ∧ ∀ f ∈ [e], f.WellFormed := ⟨by simp, by simpa using h⟩
  have hne : ∀ {es : List Expr}, 2 ≤ es.length → es ≠ [] := fun hlen =>
    List.ne_nil_of_length_pos (Nat.lt_of_lt_of_le Nat.zero_lt_two hlen)
  cases h with
  | identifier position hname => cases c <;> exact hself
  | chain hlen hes =>
    cases c with
    | chain => exact ⟨hne hlen, hes⟩
    | group => exact hself
  | group hlen hes =>
    cases c with
    | chain => exact hself
    | group => exact ⟨hne hlen, hes⟩

theorem length_le_flatOperands (h : ∀ e ∈ es, e.flatten.WellFormed) :
    es.length ≤ (flatOperands c es).length := by
  induction es with
  | nil => exact Nat.le_refl _
  | cons e es ih =>
    have hfirst := List.length_pos_of_ne_nil ((h e (by simp)).operandsOf c).1
    have hrest := ih fun f hf => h f (by simp [hf])
    rw [flatOperands, List.length_append, List.length_cons]
    omega

theorem wellFormed_flatOperands (h : ∀ e ∈ es, e.flatten.WellFormed) :
    ∀ f ∈ flatOperands c es, f.WellFormed := by
  intro f hf
  rw [flatOperands_eq, List.mem_flatMap] at hf
  obtain ⟨g, hg, hf⟩ := hf
  obtain ⟨e, he, rfl⟩ := List.mem_map.1 hg
  exact ((h e he).operandsOf c).2 f hf

theorem WellFormed.flatten (h : e.WellFormed) : e.flatten.WellFormed := by
  induction h with
  | identifier position hname => exact .identifier position hname
  | chain hlen _ ih =>
    exact .chain (Nat.le_trans hlen (length_le_flatOperands ih)) (wellFormed_flatOperands ih)
  | group hlen _ ih =>
    exact .group (Nat.le_trans hlen (length_le_flatOperands ih)) (wellFormed_flatOperands ih)

theorem identifiersAll_operandsOf (c : Connective) (e : Expr) :
    identifiersAll (c.operandsOf e) = e.identifiers := by
  cases c <;> cases e <;> simp [Connective.operandsOf, identifiers, identifiersAll]

theorem identifiersAll_flatOperands (ih : ∀ e ∈ es, e.flatten.identifiers = e.identifiers) :
    identifiersAll (flatOperands c es) = identifiersAll es := by
  induction es with
  | nil => rfl
  | cons e es ihs =>
    rw [flatOperands, identifiersAll_append, identifiersAll_operandsOf, ih e (by simp),
      ihs fun f hf => ih f (by simp [hf]), identifiersAll]

/-- The flat form has the same names in the same order. -/
theorem identifiers_flatten (e : Expr) : e.flatten.identifiers = e.identifiers := by
  induction e using induction with
  | identifier name position => rw [flatten]
  | chain es ih | group es ih => simp only [flatten, identifiers, identifiersAll_flatOperands ih]
  | other es ih => rw [flatten]

theorem flatOperands_of_alternates (hne : ∀ e ∈ es, c.operandsOf e = [e])
    (ih : ∀ e ∈ es, e.flatten = e) : flatOperands c es = es := by
  induction es with
  | nil => rfl
  | cons e es ihs =>
    rw [flatOperands, ih e (by simp), hne e (by simp), ihs (fun f hf => hne f (by simp [hf]))
      fun f hf => ih f (by simp [hf])]
    rfl

/-- An expression without operands of the kind around them is flat. -/
theorem Alternates.flatten (h : e.Alternates) : e.flatten = e := by
  induction h with
  | identifier name position => rfl
  | chain hne _ ih =>
    rw [Expr.flatten, flatOperands_of_alternates (fun e he => ?_) ih]
    cases e <;> first | rfl | exact absurd rfl (hne _ he _)
  | group hne _ ih =>
    rw [Expr.flatten, flatOperands_of_alternates (fun e he => ?_) ih]
    cases e <;> first | rfl | exact absurd rfl (hne _ he _)

end Expr

namespace Connective

variable {c : Connective} {a b n : Node} {w : Workspace}

theorem operandsOf_expr (c : Connective) (es : List Expr) : c.operandsOf (c.expr es) = es := by
  cases c <;> rfl

theorem nodes_of_plan {nodes : List Node} (hplan : n.plan = c.plan (plans nodes))
    (hsite : n.site.parts = sites nodes) : c.nodes n = nodes := by
  obtain ⟨p, s⟩ := n
  obtain rfl : p = _ := hplan
  cases c <;> exact (congrArg (zipParts (plans nodes)) hsite).trans (Directory.zipParts_nodes nodes)

/-- The ids of what an operand contributes are ids of the operand. -/
theorem ids_of_mem_nodes {q : Node} (hq : q ∈ c.nodes n) {i : Nat} (hi : i ∈ q.site.ids) :
    i ∈ n.site.ids := by
  unfold nodes at hq
  split at hq
  · exact ids_of_mem_parts (mem_parts_of_mem_children hq) hi
  · rwa [List.mem_singleton.1 hq] at hi

theorem operands_nodes (c : Connective) (a b : Node) :
    operands c.joins [.node a, .node b] = .ok ((c.nodes a ++ c.nodes b).map Part.node) := by
  have hpart : ∀ n : Node, (if c.joins n.plan then n.children.map Part.node else [.node n]) =
      (c.nodes n).map Part.node := by
    intro n
    unfold nodes
    split <;> rfl
  change Except.ok [_, _].flatten = _
  rw [hpart a, hpart b]
  simp

theorem apply_eq (c : Connective) (a b : Node) (w : Workspace) :
    c.apply a (.node b) w = (do
      let nodes ← Part.children c.kind ((c.nodes a ++ c.nodes b).map Part.node)
      place (c.plan (plans nodes)) .null (sites nodes) : Work Node) w := by
  have hoperands := c.operands_nodes a b
  cases c with
  | chain =>
    rw [apply, andThen, show operands isSequential _ = _ from hoperands]
    rfl
  | group =>
    rw [apply, alongside, show operands isParallel _ = _ from hoperands]
    rfl

/-- Two operands make a composite over all that they contribute. -/
theorem apply_run (h : 2 ≤ (c.nodes a ++ c.nodes b).length) :
    ∃ n v, c.apply a (.node b) w = (.ok n, v) ∧ n.plan = c.plan (plans (c.nodes a ++ c.nodes b)) ∧
      n.site.parts = sites (c.nodes a ++ c.nodes b) ∧ Memory.Extends [] w.memory v.memory := by
  have hrun := c.apply_eq a b w
  rw [children_nodes _ h] at hrun
  exact ⟨_, _, hrun, rfl, rfl, w.memory.extends_place _ (sites (c.nodes a ++ c.nodes b))⟩

end Connective
namespace Registry
open Expression

variable {c : Connective} {r : Registry} {m : Memory} {v w : Workspace} {n : Node} {e : Expr}
  {es : List Expr}

theorem Cloned.plan_eq {p : Node} {name : Label} {u : Memory} (h : Cloned m p name n u) :
    n.plan = p.plan := by
  obtain ⟨u₀, u₁, -, hcopy, -⟩ := h.copy
  obtain ⟨rfl, -⟩ := Prod.mk.inj hcopy
  rfl

/-- The nodes that a tree contributes stand for the operands that its expression contributes. -/
theorem Realizes.nodes {u : Memory} (hr : r.Stocked m) (h : r.Realizes m u e n) (c : Connective) :
    List.Forall₂ (r.Realizes m u) (c.operandsOf e) (c.nodes n) := by
  have hself : c.joins n.plan = false → List.Forall₂ (r.Realizes m u) [e] (c.nodes n) := by
    intro hjoins
    unfold Connective.nodes
    rw [hjoins]
    exact .cons h .nil
  cases h with
  | @identifier x i p n hx hclone =>
    obtain ⟨hsequential, hparallel⟩ := hr.single _ (mem_of_lookup hx)
    rw [hclone.plan_eq] at hself
    cases c with
    | chain => exact hself hsequential
    | group => exact hself hparallel
  | chain hparts hplan hsite =>
    cases c with
    | chain => rwa [Connective.nodes_of_plan hplan hsite]
    | group => exact hself (by rw [hplan]; rfl)
  | group hparts hplan hsite =>
    cases c with
    | chain => exact hself (by rw [hplan]; rfl)
    | group => rwa [Connective.nodes_of_plan hplan hsite]

theorem realizes_expr {u : Memory} {nodes : List Node}
    (h : List.Forall₂ (r.Realizes m u) es nodes) (hplan : n.plan = c.plan (plans nodes))
    (hsite : n.site.parts = sites nodes) : r.Realizes m u (c.expr es) n := by
  cases c with
  | chain => exact .chain h hplan hsite
  | group => exact .group h hplan hsite

/-- Putting two trees together stands for the operands of both. -/
theorem apply_realizes (hr : r.Stocked m) {e f : Expr} {a b : Node} {u : Workspace}
    (ha : r.Realizes m u.memory e a) (hb : r.Realizes m u.memory f b) (he : c.operandsOf e ≠ [])
    (hf : c.operandsOf f ≠ []) :
    ∃ n v, c.apply a (.node b) u = (.ok n, v) ∧ Memory.Extends [] u.memory v.memory ∧
      r.Realizes m v.memory (c.expr (c.operandsOf e ++ c.operandsOf f)) n := by
  have hparts := List.rel_append (ha.nodes hr c) (hb.nodes hr c)
  have hlen : 2 ≤ (c.nodes a ++ c.nodes b).length := by
    rw [← hparts.length_eq, List.length_append]
    exact Nat.add_le_add (List.length_pos_of_ne_nil he) (List.length_pos_of_ne_nil hf)
  obtain ⟨n, v, hn, hplan, hsite, hext⟩ := Connective.apply_run hlen
  exact ⟨n, v, hn, hext, realizes_expr (hparts.imp fun e n => .extend hr hext) hplan hsite⟩

/-- Adding operands to a composite, from left to right. -/
theorem foldlM_realizes (hr : r.Stocked m) {a : Node} {xs : List Expr} {rest : List Node}
    {u : Workspace} (ha : r.Realizes m u.memory (c.expr xs) a) (hxs : xs ≠ [])
    (hrest : List.Forall₂ (r.Realizes m u.memory) es rest)
    (hne : ∀ e ∈ es, c.operandsOf e ≠ []) :
    ∃ n v, rest.foldlM (fun a b => c.apply a (.node b)) a u = (.ok n, v) ∧
      Memory.Extends [] u.memory v.memory ∧
      r.Realizes m v.memory (c.expr (xs ++ es.flatMap c.operandsOf)) n := by
  induction es generalizing xs a rest u with
  | nil =>
    cases hrest
    exact ⟨a, u, rfl, .refl [] _, by simpa using ha⟩
  | cons e es ih =>
    obtain _ | ⟨hb, hrest⟩ := hrest
    have hxs' : c.operandsOf (c.expr xs) ≠ [] := by rwa [Connective.operandsOf_expr]
    obtain ⟨n, v, hn, hext, htree⟩ := apply_realizes hr ha hb hxs' (hne e (by simp))
    rw [Connective.operandsOf_expr] at htree
    obtain ⟨n', v', hn', hext', htree'⟩ := ih htree (by simp [hxs])
      (hrest.imp fun e n => .extend hr hext) fun f hf => hne f (by simp [hf])
    refine ⟨n', v', ?_, hext.trans hext' (by simp), by simpa using htree'⟩
    rw [List.foldlM_cons, Work.run_bind, hn]
    exact hn'

theorem fold_realizes (hr : r.Stocked m) {nodes : List Node} {u : Workspace}
    (h : List.Forall₂ (r.Realizes m u.memory) es nodes) (hlen : 2 ≤ es.length)
    (hne : ∀ e ∈ es, c.operandsOf e ≠ []) :
    ∃ n v, c.fold nodes u = (.ok n, v) ∧ Memory.Extends [] u.memory v.memory ∧
      r.Realizes m v.memory (c.expr (es.flatMap c.operandsOf)) n := by
  rcases h with _ | ⟨ha, _ | ⟨hb, hrest⟩⟩
  · simp at hlen
  · simp at hlen
  · obtain ⟨n, v, hn, hext, htree⟩ :=
      apply_realizes hr ha hb (hne _ (by simp)) (hne _ (by simp))
    obtain ⟨n', v', hn', hext', htree'⟩ := foldlM_realizes hr htree
      (by simp [hne _ List.mem_cons_self]) (hrest.imp fun e n => .extend hr hext)
      fun f hf => hne f (by simp [hf])
    refine ⟨n', v', ?_, hext.trans hext' (by simp), by simpa using htree'⟩
    rw [Connective.fold, List.foldlM_cons, Work.run_bind, hn]
    exact hn'

theorem combineAll_realizes
    (ih : ∀ e ∈ es, ∀ w : Workspace, Memory.Extends [] m w.memory → ∃ n v,
      r.combine e w = (.ok n, v) ∧ Memory.Extends [] w.memory v.memory ∧
        r.Realizes m v.memory e.flatten n)
    (hr : r.Stocked m) (hm : Memory.Extends [] m w.memory) :
    ∃ nodes v, r.combineAll es w = (.ok nodes, v) ∧ Memory.Extends [] w.memory v.memory ∧
      List.Forall₂ (r.Realizes m v.memory) (es.map Expr.flatten) nodes := by
  induction es generalizing w with
  | nil => exact ⟨[], w, rfl, .refl [] _, .nil⟩
  | cons e es ihs =>
    obtain ⟨n, u, hn, hext, htree⟩ := ih e (by simp) w hm
    obtain ⟨nodes, v, hnodes, hext', htrees⟩ :=
      ihs (fun f hf => ih f (by simp [hf])) (hm.trans hext (by simp))
    refine ⟨n :: nodes, v, ?_, hext.trans hext' (by simp), .cons (htree.extend hr hext') htrees⟩
    rw [combineAll, Work.run_bind, hn]
    change (r.combineAll es >>= fun rest => pure (n :: rest)) u = _
    rw [Work.run_bind, hnodes]
    rfl

theorem composite_realizes
    (ih : ∀ e ∈ es, ∀ w : Workspace, Memory.Extends [] m w.memory → ∃ n v,
      r.combine e w = (.ok n, v) ∧ Memory.Extends [] w.memory v.memory ∧
        r.Realizes m v.memory e.flatten n)
    (hr : r.Stocked m) (hm : Memory.Extends [] m w.memory) (hlen : 2 ≤ es.length)
    (hes : ∀ e ∈ es, e.WellFormed) :
    ∃ n v, (do c.fold (← r.combineAll es) : Work Node) w = (.ok n, v) ∧
      Memory.Extends [] w.memory v.memory ∧
      r.Realizes m v.memory (c.expr (Expr.flatOperands c es)) n := by
  obtain ⟨nodes, u, hnodes, hext, htrees⟩ := combineAll_realizes ih hr hm
  obtain ⟨n, v, hn, hext', htree⟩ := fold_realizes (c := c) hr htrees (by simpa using hlen)
    (by simpa using fun e he => ((hes e he).flatten.operandsOf c).1)
  refine ⟨n, v, ?_, hext.trans hext' (by simp), by rwa [Expr.flatOperands_eq]⟩
  rw [Work.run_bind, hnodes]
  exact hn

/-- What is built with the operators stands for the flat form of the expression. -/
theorem combine_realizes (hr : r.Stocked m) (he : e.WellFormed)
    (hknown : ∀ x ∈ e.identifiers.map (·.1), r.has x = true) (w : Workspace)
    (hm : Memory.Extends [] m w.memory) :
    ∃ n v, r.combine e w = (.ok n, v) ∧ Memory.Extends [] w.memory v.memory ∧
      r.Realizes m v.memory e.flatten n := by
  induction he generalizing w with
  | @identifier x position hname =>
    obtain ⟨n, v, hn⟩ := create_of_has (hknown x (by simp [Expr.identifiers])) w
    obtain ⟨p, hx, hclone, hext⟩ := create_cloned hr.taken hm hn
    exact ⟨n, v, hn, hext, .identifier hx hclone⟩
  | chain hlen hes ih =>
    exact composite_realizes (c := .chain) (fun e he => ih e he fun x hx =>
      hknown x (List.map_subset _ (Expr.mem_identifiersAll he) hx)) hr hm hlen hes
  | group hlen hes ih =>
    exact composite_realizes (c := .group) (fun e he => ih e he fun x hx =>
      hknown x (List.map_subset _ (Expr.mem_identifiersAll he) hx)) hr hm hlen hes

theorem exists_compile (hr : r.Stocked w.memory) (he : e.WellFormed)
    (hknown : ∀ x ∈ e.identifiers.map (·.1), r.has x = true) :
    ∃ n v, r.compile (.tree e) w = (.ok n, v) ∧ r.Realizes w.memory v.memory e n := by
  obtain ⟨n, v, hn⟩ := exists_build he hknown w
  refine ⟨n, v, ?_, (build_realizes hr (.refl [] _) hn).1⟩
  unfold compile
  rw [ExpressionInput.expr, Work.run_ok_bind, (r.unknownNames_reports e).eq_nil_iff.2 hknown]
  exact hn

end Registry

namespace Connective

variable {c : Connective} {a b d : Node} {w u : Workspace} {m : Memory}

/-- An operand that is in use and contributes something. -/
def Ready (c : Connective) (m : Memory) (n : Node) : Prop :=
  c.nodes n ≠ [] ∧ ∀ i ∈ n.site.ids, i < m.next

/-- Two composites over the same nodes look alike as long as the nodes do. -/
theorem outline_congr {n n' : Node} {nodes : List Node} {m' : Memory}
    (hplan : n.plan = c.plan (plans nodes)) (hsite : n.site.parts = sites nodes)
    (hplan' : n'.plan = c.plan (plans nodes)) (hsite' : n'.site.parts = sites nodes)
    (h : Plan.outlines m (plans nodes) (sites nodes) =
      Plan.outlines m' (plans nodes) (sites nodes)) :
    n.outline m = n'.outline m' := by
  unfold Node.outline
  rw [hplan, hplan']
  cases c <;> simp only [Connective.plan, Plan.outline, hsite, hsite', h]

/-- Three operands, put together in either order, in one workspace or one after the other. -/
theorem apply_assoc (ha : c.Ready w.memory a) (hb : c.Ready w.memory b)
    (hd : c.Ready w.memory d) (hu : Memory.Extends [] w.memory u.memory) :
    ∃ n v n' v', (do c.apply (← c.apply a (.node b)) (.node d) : Work Node) w = (.ok n, v) ∧
      (do c.apply a (.node (← c.apply b (.node d))) : Work Node) u = (.ok n', v') ∧
      n.outline v.memory = n'.outline v'.memory := by
  have hlen : ∀ {xs ys : List Node}, xs ≠ [] → ys ≠ [] → 2 ≤ (xs ++ ys).length := by
    intro xs ys hxs hys
    rw [List.length_append]
    exact Nat.add_le_add (List.length_pos_of_ne_nil hxs) (List.length_pos_of_ne_nil hys)
  obtain ⟨ab, w₁, hab, hplan₁, hsite₁, hext₁⟩ := apply_run (w := w) (hlen ha.1 hb.1)
  have hnodes₁ := nodes_of_plan hplan₁ hsite₁
  obtain ⟨n, v, hn, hplan, hsite, hext⟩ := apply_run (a := ab) (w := w₁)
    (hlen (by rw [hnodes₁]; simp [ha.1]) hd.1)
  obtain ⟨bd, u₁, hbd, hplan₂, hsite₂, hext₂⟩ := apply_run (w := u) (hlen hb.1 hd.1)
  have hnodes₂ := nodes_of_plan hplan₂ hsite₂
  obtain ⟨n', v', hn', hplan', hsite', hext'⟩ := apply_run (b := bd) (w := u₁)
    (hlen ha.1 (by rw [hnodes₂]; simp [hb.1]))
  rw [hnodes₁] at hplan hsite
  rw [hnodes₂, ← List.append_assoc] at hplan' hsite'
  refine ⟨n, v, n', v', ?_, ?_, ?_⟩
  · rw [Work.run_bind, hab]
    exact hn
  · rw [Work.run_bind, hbd]
    exact hn'
  · have htaken : ∀ i ∈ Site.idsOf (sites (c.nodes a ++ c.nodes b ++ c.nodes d)),
        i < w.memory.next := by
      intro i hi
      obtain ⟨s, hs, hi⟩ := Site.mem_idsOf.1 hi
      obtain ⟨q, hq, rfl⟩ := List.mem_map.1 hs
      rcases List.mem_append.1 hq with hq | hq
      · rcases List.mem_append.1 hq with hq | hq
        · exact ha.2 i (ids_of_mem_nodes hq hi)
        · exact hb.2 i (ids_of_mem_nodes hq hi)
      · exact hd.2 i (ids_of_mem_nodes hq hi)
    refine outline_congr hplan hsite hplan' hsite' ?_
    rw [Plan.outlines_extend (hext₁.trans hext (by simp)) htaken,
      Plan.outlines_extend (hu.trans (hext₂.trans hext' (by simp)) (by simp)) htaken]

end Connective
namespace Registry
open Expression

/-- The operators build the trees of expressions. Over leaves and ensembles, what they make of an
expression looks like what is compiled, anywhere, of its flat form. That is the expression itself if
no chain stands in a chain and no group in a group. Both operators are associative as far as the
structure goes. -/
theorem operators_build_flat_expressions :
    (∀ (r : Registry) (w u : Workspace) (e : Expr), r.Stocked w.memory → r.Stocked u.memory →
      r.SameNames w.memory u.memory → e.WellFormed →
      (∀ x ∈ e.identifiers.map (·.1), r.has x = true) →
        ∃ n v n' v', r.combine e w = (.ok n, v) ∧ r.compile (.tree e.flatten) u = (.ok n', v') ∧
          n.outline v.memory = n'.outline v'.memory ∧ (e.Alternates → e.flatten = e)) ∧
    ∀ (c : Connective) (a b d : Node) (w u : Workspace), c.Ready w.memory a →
      c.Ready w.memory b → c.Ready w.memory d → Memory.Extends [] w.memory u.memory →
        ∃ n v n' v', (do c.apply (← c.apply a (.node b)) (.node d) : Work Node) w = (.ok n, v) ∧
          (do c.apply a (.node (← c.apply b (.node d))) : Work Node) u = (.ok n', v') ∧
          n.outline v.memory = n'.outline v'.memory := by
  refine ⟨fun r w u e hw hu hnames he hknown => ?_,
    fun c a b d w u ha hb hd hu => Connective.apply_assoc ha hb hd hu⟩
  obtain ⟨n, v, hn, -, htree⟩ := combine_realizes hw he hknown w (.refl [] _)
  obtain ⟨n', v', hn', htree'⟩ := exists_compile hu he.flatten (by rwa [e.identifiers_flatten])
  refine ⟨n, v, n', v', hn, hn', ?_, Expr.Alternates.flatten⟩
  have hlook : r.prototype u.memory = r.prototype w.memory := funext (prototype_congr hnames)
  rw [htree.outline_eq hw, htree'.outline_eq hu, hlook]

/-- Chains in a chain and groups in a group, on both sides of an operator. -/
theorem operators_build_flat_expressions_nested :
    let step : Node := ⟨.transformer (Passthrough.passthrough []), .mk 0 []⟩
    let r := ((empty.register ⟨.text "b", .node step, .text "", .text "", false⟩).1.register
      ⟨.text "a", .node step, .text "", .text "", false⟩).1
    let w : Workspace := ⟨⟨#[.fresh (.text "step")]⟩, [], false⟩
    ∃ e e', parse "(a |> b) |> (a |> b + (a + b))" = .ok e ∧
      parse "a |> b |> a |> b + a + b" = .ok e' ∧ e.flatten.same e' = true ∧
      e'.Alternates ∧ e'.flatten = e' ∧
      (∃ n v n' v', r.combine e w = (.ok n, v) ∧ r.compile (.tree e.flatten) w = (.ok n', v') ∧
        n.outline v.memory = n'.outline v'.memory) ∧
      ∃ n v n' v', (do andThen (← andThen step (.node step)) (.node step)) w = (.ok n, v) ∧
        (do andThen step (.node (← andThen step (.node step)))) w = (.ok n', v') ∧
        n.outline v.memory = n'.outline v'.memory := by
  intro step r w
  obtain ⟨hcombine, hassoc⟩ := operators_build_flat_expressions
  have hw : r.Stocked w.memory := ⟨by decide, by decide⟩
  have hparse : parse "(a |> b) |> (a |> b + (a + b))" = .ok (.chain [
      .chain [.identifier "a" 1, .identifier "b" 6],
      .chain [.identifier "a" 13, .group [.identifier "b" 18,
        .group [.identifier "a" 23, .identifier "b" 27]]]]) := by cbv
  have hparse' : parse "a |> b |> a |> b + a + b" = .ok (.chain [.identifier "a" 0,
      .identifier "b" 5, .identifier "a" 10,
      .group [.identifier "b" 15, .identifier "a" 19, .identifier "b" 23]]) := by cbv
  have hplain : Expr.Alternates (.chain [.identifier "a" 0, .identifier "b" 5, .identifier "a" 10,
      .group [.identifier "b" 15, .identifier "a" 19, .identifier "b" 23]]) := by
    have hname := Expr.Alternates.identifier
    have hgroup : Expr.Alternates
        (.group [.identifier "b" 15, .identifier "a" 19, .identifier "b" 23]) :=
      .group (by simp) (by simp [hname])
    exact .chain (by simp) (by simp [hname, hgroup])
  obtain ⟨-, -, -, -, -, -, -, hflat⟩ :=
    hcombine r w w _ hw hw (hw.sameNames (.refl [] _)) (wellFormed_of_parse hparse') (by decide)
  refine ⟨_, _, hparse, hparse', by decide, hplain, hflat hplain, ?_, ?_⟩
  · obtain ⟨n, v, n', v', hn, hn', houtline, -⟩ :=
      hcombine r w w _ hw hw (hw.sameNames (.refl [] _)) (wellFormed_of_parse hparse) (by decide)
    exact ⟨n, v, n', v', hn, hn', houtline⟩
  · have hstep : Connective.chain.Ready w.memory step := ⟨List.cons_ne_nil _ _, by decide⟩
    exact hassoc .chain step step step w w hstep hstep hstep (.refl [] _)

end Registry
end ColumnFlow
