import ColumnFlow.Node.Build
import ColumnFlow.Proofs.Node.Training

/-!
# Equivalent compositions

Two ways of composing nodes, from one workspace on. They are equivalent if nobody can tell the two
compositions apart by fitting them on the same data and asking them for answers, where failures
count by their kinds. Compositions that are one trainer are equivalent.
-/
namespace ColumnFlow

namespace Node

/-- Both compositions succeed. Both trees are fitted with success, or fail with one kind of failure;
and after a success both give one answer to everything, or fail with one kind of failure. -/
def Equivalent (env : Surroundings) (w : Workspace) (build build' : Work Node) : Prop :=
  ∃ n v n' v', build w = (.ok n, v) ∧ build' w = (.ok n', v') ∧
    ∀ X y : Data,
      Failure.byKind (n.fit env X y v).1 = Failure.byKind (n'.fit env X y v').1 ∧
        ((n.fit env X y v).1 = .ok () → ∀ Z : Data,
          Failure.byKind (n.transform (n.fit env X y v).2.memory Z).outcome =
            Failure.byKind (n'.transform (n'.fit env X y v').2.memory Z).outcome)

variable {env : Surroundings} {w v v' : Workspace} {n n' : Node} {nodes : List Node}
  {build build' : Work Node} {m : Memory} {name : Label}

/-- What a composition answers when it is fitted first. -/
def fitTransform (env : Surroundings) (build : Work Node) (X y Z : Data) : Work Frame := do
  let n ← build
  n.fit env X y
  n.transform (← Work.memory) Z

theorem Equivalent.fitTransform_eq (h : Equivalent env w build build') (X y Z : Data) :
    Failure.byKind (fitTransform env build X y Z w).1 =
      Failure.byKind (fitTransform env build' X y Z w).1 := by
  obtain ⟨n, v, n', v', hn, hn', hsame⟩ := h
  obtain ⟨hfit, hanswer⟩ := hsame X y
  unfold fitTransform
  rw [Work.run_bind, Work.run_bind, hn, hn']
  dsimp only
  rw [Work.run_bind, Work.run_bind]
  revert hfit hanswer
  rcases n.fit env X y v with ⟨e | _, u⟩ <;> rcases n'.fit env X y v' with ⟨e' | _, u'⟩ <;>
    intro hfit hanswer
  · exact congrArg Except.error (Except.error.inj hfit)
  · cases hfit
  · cases hfit
  · have hrun : ∀ (x : Logged Frame) (u : Workspace), ((liftM x : Work Frame) u).1 = x.outcome := by
      rintro ⟨notices, _ | _⟩ u <;> rfl
    dsimp only
    rw [Work.run_memory_bind, Work.run_memory_bind, hrun, hrun]
    exact hanswer rfl Z

theorem transform_byKind (m : Memory) (n : Node) (Z : Data) :
    Failure.byKind (n.transform m Z).outcome =
      if (trained m n).fitted then Failure.byKind Z.toFrame >>= (trained m n).answer
      else .error "NotFittedError" := by
  unfold transform
  change Failure.byKind (if !n.isFitted m then _ else _ : Logged Frame).outcome =
    if n.isFitted m then _ else _
  cases n.isFitted m with
  | false => rfl
  | true =>
    simp only [Bool.not_true, Bool.false_eq_true, if_false, if_true]
    rcases Z.toFrame with e | Z <;> rfl

theorem equivalent_of_train (hbuild : build w = (.ok n, v)) (hbuild' : build' w = (.ok n', v'))
    (h : train env v n = train env v' n') : Equivalent env w build build' := by
  refine ⟨n, v, n', v', hbuild, hbuild', fun X y => ?_⟩
  unfold Node.fit
  rcases X.toFrame with e | X
  · exact ⟨rfl, fun h => nomatch h⟩
  rcases y.toSeries with e | y
  · exact ⟨rfl, fun h => nomatch h⟩
  have hrun : Work.ended (n.plan.fit env n.site X y v) n.trained =
      Work.ended (n'.plan.fit env n'.site X y v') n'.trained := congrFun (congrFun h X) y
  change Failure.byKind (n.plan.fit env n.site X y v).1 =
      Failure.byKind (n'.plan.fit env n'.site X y v').1 ∧
    ((n.plan.fit env n.site X y v).1 = .ok () → ∀ Z,
      Failure.byKind (n.transform (n.plan.fit env n.site X y v).2.memory Z).outcome =
        Failure.byKind (n'.transform (n'.plan.fit env n'.site X y v').2.memory Z).outcome)
  revert hrun
  rcases n.plan.fit env n.site X y v with ⟨e | _, u⟩ <;>
    rcases n'.plan.fit env n'.site X y v' with ⟨e' | _, u'⟩ <;> intro hrun
  · exact ⟨congrArg Except.error (Except.error.inj hrun), fun h => nomatch h⟩
  · cases hrun
  · cases hrun
  · have htrained : trained u.memory n = trained u'.memory n' := Except.ok.inj hrun
    refine ⟨rfl, fun _ Z => ?_⟩
    rw [transform_byKind, transform_byKind, htrained]

/-! Composites of nodes of their own. -/

theorem sites_append (ns ns' : List Node) : sites (ns ++ ns') = sites ns ++ sites ns' :=
  List.map_append

/-- A composite takes one new identity. -/
theorem holds_place (name : Label) {ss : List Site} (h : m.Holds (Site.idsOf ss)) :
    (m.place name ss).2.Holds (m.place name ss).1.ids := by
  refine ⟨List.nodup_cons.2 ⟨fun hmem => Nat.lt_irrefl _ (h.taken _ hmem), h.distinct⟩, ?_⟩
  intro i hi
  change i < (m.alloc _).next
  rw [Memory.next_alloc]
  rcases List.mem_cons.1 hi with rfl | hi
  · exact Nat.lt_succ_self _
  · exact Nat.lt_succ_of_lt (h.taken i hi)

/-- What comes of a composite: a tree of its own over its parts, which is trained like a combination
of them, in a memory that is otherwise as before. -/
structure Composed (env : Surroundings) (w : Workspace) (parts : List Node) (trainer : Trainer)
    (n : Node) (v : Workspace) : Prop where
  extend : Memory.Extends [] w.memory v.memory
  holds : v.memory.Holds n.site.ids
  ids : n.site.ids = w.memory.next :: Site.idsOf (sites parts)
  train : train env v n = trainer

/-- The identity that a composite has taken was not in use before. -/
theorem Composed.holds_among {trainer : Trainer} {g : Node} {before group after : List Node}
    (h : Composed env w group trainer g v)
    (hids : w.memory.Holds (Site.idsOf (sites (before ++ (group ++ after))))) :
    v.memory.Holds (Site.idsOf (sites (before ++ g :: after))) := by
  have hperm : (Site.idsOf (sites (before ++ g :: after))).Perm
      (w.memory.next :: Site.idsOf (sites (before ++ (group ++ after)))) := by
    have hcons : sites (g :: after) = g.site :: sites after := rfl
    rw [sites_append, sites_append, sites_append, hcons]
    simp only [Site.idsOf_append, Site.idsOf, h.ids]
    exact List.perm_middle
  have hnew : w.memory.next ∉ Site.idsOf (sites (before ++ (group ++ after))) := fun hmem =>
    Nat.lt_irrefl _ (hids.taken _ hmem)
  refine Memory.Holds.perm ⟨List.nodup_cons.2 ⟨hnew, hids.distinct⟩, fun i hi => ?_⟩ hperm.symm
  rcases List.mem_cons.1 hi with rfl | hi
  · exact h.holds.taken _ (by simp [h.ids])
  · exact Nat.lt_of_lt_of_le (hids.taken i hi) h.extend.next_le

theorem sequential_composed (env : Surroundings) (name : Label) (h : 2 ≤ nodes.length)
    (hids : w.memory.Holds (Site.idsOf (sites nodes))) :
    ∃ n v, sequential (nodes.map Part.node) name w = (.ok n, v) ∧
      Composed env w nodes (.sequential (nodes.map (Node.train env w))) n v := by
  let label := (Plan.sequential (plans nodes)).copiedName name
  have hext := w.memory.extends_place label (sites nodes)
  have hplace := holds_place label hids
  unfold sequential
  rw [children_nodes "Sequential" h]
  refine ⟨_, _, rfl, hext, hplace, rfl, (train_sequential hplace rfl).trans ?_⟩
  exact congrArg Trainer.sequential (map_train_extend hext hids.taken (by simp))

theorem parallel_composed (env : Surroundings) (name : Label) (h : 2 ≤ nodes.length)
    (hids : w.memory.Holds (Site.idsOf (sites nodes))) :
    ∃ n v names, parallel (nodes.map Part.node) name w = (.ok n, v) ∧
      Composed env w nodes (.parallel names (nodes.map (Node.train env w))) n v := by
  let label := (Plan.parallel (plans nodes)).copiedName name
  have hext := w.memory.extends_place label (sites nodes)
  have hplace := holds_place label hids
  unfold parallel
  rw [children_nodes "Parallel" h]
  refine ⟨_, _, (w.memory.place label (sites nodes)).2.labelsOf (sites nodes), rfl, hext, hplace,
    rfl, (train_parallel hplace rfl).trans ?_⟩
  exact congrArg (Trainer.parallel _) (map_train_extend hext hids.taken (by simp))

theorem regular_trainers (hids : w.memory.Holds (Site.idsOf (sites nodes))) :
    ∀ t ∈ nodes.map (Node.train env w), t.Regular := by
  intro t ht
  obtain ⟨n, hn, rfl⟩ := List.mem_map.1 ht
  refine regular_train fun i hi => hids.taken i ?_
  exact Site.mem_idsOf.2 ⟨n.site, List.mem_map_of_mem hn, hi⟩

end Node
end ColumnFlow
