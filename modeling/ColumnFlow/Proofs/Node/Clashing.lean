import ColumnFlow.Proofs.Node.Replies

/-!
# Clashes

Where further columns of a frame come to matter to a tree: a node makes a column with the label of
one of them, or it comes through to an ensemble, which expects a single column of each member. A
clash is looked for along the way that a frame takes through the tree, side by side with the way of
the frame that has the further columns.
-/
namespace ColumnFlow.Node

/-- The members that an ensemble asks. Of a choice only the chosen one is asked. -/
def members (m : Memory) (n : Node) : List Node :=
  match n.plan with
  | .best _ _ => (n.children[(m.winner n.site).getD 0]?).toList
  | .vote _ | .stack .. | .bagging .. => n.children
  | _ => []

/-- What the stacker of a stack is shown of a frame. -/
def stacked (m : Memory) (ps : List Plan) (settings : StackSettings) (s : Site) (F : Frame) :
    Except Failure Frame := do
  let members ← (zipParts ps s.rest).mapM fun q => (q.labels m F).outcome
  Stacking.features (Stacking.stored m s) settings.keepOriginal.isTrue
    (Memory.besides (m.labelsOf s.rest) members F) F

/-- A composite that is given `F`, or else `F'`, passes frames on to a part of it. -/
inductive Passes (m : Memory) (F F' : Frame) : Node → Node → Frame → Frame → Prop
  | branch {ps : List Plan} {s : Site} {q : Node} :
    q ∈ zipParts ps s.parts → Passes m F F' ⟨.parallel ps, s⟩ q F F'
  | turn {ps : List Plan} {s : Site} {before after : List Node} {q : Node} {A A' : Frame} :
    zipParts ps s.parts = before ++ q :: after →
      before.foldlM (fun A p => p.reply m A) F = .ok A →
        before.foldlM (fun A p => p.reply m A) F' = .ok A' →
          Passes m F F' ⟨.sequential ps, s⟩ q A A'

/-- An ensemble that is given `F`, or else `F'`, asks a part of it for the labels of frames. -/
inductive Asks (m : Memory) (F F' : Frame) : Node → Node → Frame → Frame → Prop
  | member {n q : Node} : q ∈ n.members m → Asks m F F' n q F F'
  | stacker {t : Plan} {ps : List Plan} {settings : StackSettings} {s : Site} {A A' : Frame} :
    stacked m ps settings s F = .ok A → stacked m ps settings s F' = .ok A' →
      Asks m F F' ⟨.stack t ps settings, s⟩ ⟨t, s.first⟩ A A'

/-- Somewhere in a tree, what comes of the other columns of `F'` meets what comes of `F`, or comes
through to an ensemble. -/
inductive Clash (m : Memory) : Node → Frame → Frame → Prop
  /-- A transformer answers with a column under such a label. -/
  | created {t : Transformer} {s : Site} {F F' G : Frame} :
    reply m ⟨.transformer t, s⟩ F = .ok G → ¬ F.Spares F' G → Clash m ⟨.transformer t, s⟩ F F'
  /-- A parallel gives a column such a label. -/
  | joined {ps : List Plan} {s : Site} {q : Node} {F F' C C' G : Frame} :
    q ∈ zipParts ps s.parts → q.reply m F = .ok C → q.reply m F' = .ok C' →
      reply m ⟨.parallel ps, s⟩ F = .ok G → C.Meets C' G → Clash m ⟨.parallel ps, s⟩ F F'
  /-- A stack that keeps its features puts predictions under such a label. -/
  | kept {t : Plan} {ps : List Plan} {settings : StackSettings} {s : Site} {F F' A : Frame} :
    settings.keepOriginal.isTrue = true → stacked m ps settings s F = .ok A → ¬ F.Spares F' A →
      Clash m ⟨.stack t ps settings, s⟩ F F'
  /-- A part that should predict answers with other columns. -/
  | leaked {n q : Node} {F F' A A' C C' : Frame} {l : Label} :
    Asks m F F' n q A A' → q.reply m A = .ok C → q.reply m A' = .ok C' → l ∈ C'.labels →
      l ∉ C.labels → Clash m n F F'
  | passed {n q : Node} {F F' A A' : Frame} :
    Passes m F F' n q A A' → Clash m q A A' → Clash m n F F'
  | asked {n q : Node} {F F' A A' : Frame} :
    Asks m F F' n q A A' → Clash m q A A' → Clash m n F F'

variable {m : Memory} {s : Site} {t : Transformer} {ps : List Plan} {F F' : Frame}

/-! What can clash at the nodes that are not ensembles. -/

theorem not_asks {n q : Node} {A A' : Frame} (hmembers : n.members m = [])
    (hstack : ∀ t ps settings, n.plan ≠ .stack t ps settings) : ¬ Asks m F F' n q A A' := by
  intro hasks
  cases hasks with
  | member hq =>
    rw [hmembers] at hq
    cases hq
  | stacker => exact hstack _ _ _ rfl

theorem not_clash_learner (l : Learner) : ¬ Clash m ⟨.learner l, s⟩ F F' := by
  have hasks {q : Node} {A A' : Frame} : ¬ Asks m F F' ⟨.learner l, s⟩ q A A' :=
    not_asks rfl fun _ _ _ h => nomatch h
  intro hclash
  cases hclash with
  | leaked h => exact hasks h
  | passed hpasses => cases hpasses
  | asked h => exact hasks h

theorem clash_transformer (h : Clash m ⟨.transformer t, s⟩ F F') :
    ∃ G, reply m ⟨.transformer t, s⟩ F = .ok G ∧ ¬ F.Spares F' G := by
  have hasks {q : Node} {A A' : Frame} : ¬ Asks m F F' ⟨.transformer t, s⟩ q A A' :=
    not_asks rfl fun _ _ _ h => nomatch h
  cases h with
  | created hG hspares => exact ⟨_, hG, hspares⟩
  | leaked h => exact absurd h hasks
  | passed hpasses => cases hpasses
  | asked h => exact absurd h hasks

theorem clash_parallel (h : Clash m ⟨.parallel ps, s⟩ F F') :
    (∃ q ∈ zipParts ps s.parts, q.Clash m F F') ∨
      ∃ q ∈ zipParts ps s.parts, ∃ C C' G, q.reply m F = .ok C ∧ q.reply m F' = .ok C' ∧
        reply m ⟨.parallel ps, s⟩ F = .ok G ∧ C.Meets C' G := by
  have hasks {q : Node} {A A' : Frame} : ¬ Asks m F F' ⟨.parallel ps, s⟩ q A A' :=
    not_asks rfl fun _ _ _ h => nomatch h
  cases h with
  | joined hq hC hC' hG hmeets => exact .inr ⟨_, hq, _, _, _, hC, hC', hG, hmeets⟩
  | leaked h => exact absurd h hasks
  | passed hpasses hclash =>
    cases hpasses with
    | branch hq => exact .inl ⟨_, hq, hclash⟩
  | asked h => exact absurd h hasks

theorem clash_sequential (h : Clash m ⟨.sequential ps, s⟩ F F') :
    ∃ before q after A A', zipParts ps s.parts = before ++ q :: after ∧
      before.foldlM (fun A p => p.reply m A) F = .ok A ∧
        before.foldlM (fun A p => p.reply m A) F' = .ok A' ∧ q.Clash m A A' := by
  have hasks {q : Node} {A A' : Frame} : ¬ Asks m F F' ⟨.sequential ps, s⟩ q A A' :=
    not_asks rfl fun _ _ _ h => nomatch h
  cases h with
  | leaked h => exact absurd h hasks
  | passed hpasses hclash =>
    cases hpasses with
    | turn hparts hA hA' => exact ⟨_, _, _, _, _, hparts, hA, hA', hclash⟩
  | asked h => exact absurd h hasks

end ColumnFlow.Node
