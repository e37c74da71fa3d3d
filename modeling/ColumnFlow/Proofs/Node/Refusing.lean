import ColumnFlow.Proofs.Node.Blame
import ColumnFlow.Proofs.Node.Reaching
import ColumnFlow.Proofs.Node.Replies

/-!
# Refusals

Only a node that is not fitted refuses a frame for want of a fit, in its own name and before it
looks at the frame. A fitted tree asks no other nodes than fitted ones: a choice asks the part that
was chosen, every other node all of its parts. What a fitted leaf has learned is of its own kind in
every state that can be reached, so whatever it blames a node for comes from the functions that it
was built from.
-/
namespace ColumnFlow

variable {P : Label → Prop} {m : Memory} {n : Node} {s : Site} {ps : List Plan} {ss : List Site}
  {F : Frame}

namespace Memory

theorem guarded_blames {α : Type} {body : Unit → Logged α} (h : Blames P (body ()).outcome) :
    Blames P (m.guarded s true F body).outcome := by
  unfold guarded
  cases m.lacking s F with
  | nil => exact h
  | cons l labels => exact .mismatch _

theorem singleColumn_blames (output : Frame) : Blames P (m.singleColumn s F output).outcome := by
  unfold singleColumn
  split
  · split
    · exact .ok _
    · exact .unusable _
  · exact .mismatch _

theorem concatenate_blames (names : List Label) (outputs : List Frame) :
    Blames P (m.concatenate s names outputs F).outcome := by
  unfold concatenate
  dsimp only
  split
  · exact .mismatch _
  · split
    · exact .unusable _
    · exact .ok _

/-! Learners that have learned a model. -/

theorem model_outcome {model : Model} (hmodel : (m.slot s.id).learned = .model model) :
    m.model s = pure model := by
  unfold Memory.model
  rw [hmodel]

variable {model : Model} (hmodel : (m.slot s.id).learned = .model model)
  (hpredict : ∀ X, Blames P (model.predict X).outcome)
include hmodel hpredict

theorem predictions_blames : Blames P (m.predictions s F).outcome := by
  unfold predictions
  rw [model_outcome hmodel, pure_bind, Logged.outcome_bind]
  refine (Blames.select F _).bind fun X => ?_
  rw [Logged.outcome_bind]
  refine (hpredict X).bind fun c => ?_
  unfold Series.over
  split
  · exact .ok _
  · exact .unusable _

theorem answer_blames {l : Learner}
    (hproba : ∀ f, model.probabilities = some f → ∀ X, Blames P (f X).outcome) :
    Blames P (m.answer l s F).outcome := by
  have hlabels := predictions_blames (F := F) hmodel hpredict
  unfold answer
  cases l.output with
  | labels =>
    dsimp only
    rw [Logged.outcome_bind]
    exact hlabels.bind fun _ => .ok _
  | probabilities =>
    dsimp only
    rw [model_outcome hmodel, pure_bind]
    cases hp : model.probabilities with
    | none =>
      dsimp only
      rw [Logged.outcome_bind]
      refine Blames.bind (.ok ()) fun _ => ?_
      rw [Logged.outcome_bind]
      exact hlabels.bind fun _ => .ok _
    | some f =>
      dsimp only
      rw [Logged.outcome_bind]
      refine (Blames.select F _).bind fun X => ?_
      rw [Logged.outcome_bind]
      refine (hproba f hp X).bind fun proba => ?_
      unfold namedProbabilities
      split
      · exact .ok _
      · exact .unusable _

end Memory

namespace Plan

open Node (zipParts)

theorem allFitted_zipParts (m : Memory) (ps : List Plan) (ss : List Site) :
    allFitted m ps ss = (zipParts ps ss).all (·.isFitted m) := by
  induction ps generalizing ss with
  | nil => simp only [allFitted, zipParts, List.zipWith_nil_left, List.all_nil]
  | cons p ps ih =>
    cases ss with
    | nil => simp only [allFitted, zipParts, List.zipWith_nil_right, List.all_nil]
    | cons s ss =>
      simp only [allFitted, ih]
      rfl

theorem fittedAt_zipParts (m : Memory) (ps : List Plan) (ss : List Site) (i : Nat) :
    fittedAt m ps ss i = ((zipParts ps ss)[i]?).any (·.isFitted m) := by
  induction ps generalizing ss i with
  | nil => simp only [fittedAt, zipParts, List.zipWith_nil_left, List.getElem?_nil, Option.any_none]
  | cons p ps ih =>
    cases ss with
    | nil =>
      simp only [fittedAt, zipParts, List.zipWith_nil_right, List.getElem?_nil, Option.any_none]
    | cons s ss =>
      cases i with
      | zero =>
        simp only [fittedAt]
        rfl
      | succ i =>
        simp only [fittedAt, ih]
        rfl

end Plan

namespace Node

inductive Somewhere (R : Node → Prop) : Node → Prop
  | here {n : Node} : R n → Somewhere R n
  | part {n q : Node} : q ∈ n.parts → Somewhere R q → Somewhere R n

/-- What a leaf has learned, or an element does by itself, blames a node for want of a fit. -/
inductive Raises (m : Memory) (l : Label) : Node → Prop
  | fitted {t : Transformer} {s : Site} {f : Fitted} {X : Frame} :
    (m.slot s.id).learned = .fitted f → (f.answer X).outcome = .error (.notFitted l) →
      Raises m l ⟨.transformer t, s⟩
  | predict {learner : Learner} {s : Site} {model : Model} {X : Frame} :
    (m.slot s.id).learned = .model model → (model.predict X).outcome = .error (.notFitted l) →
      Raises m l ⟨.learner learner, s⟩
  | probabilities {learner : Learner} {s : Site} {model : Model} {f : Frame → Logged Frame}
    {X : Frame} : (m.slot s.id).learned = .model model → model.probabilities = some f →
      (f X).outcome = .error (.notFitted l) → Raises m l ⟨.learner learner, s⟩
  | element {e : Element} {s : Site} {X : Frame} :
    (e.transform (m.name s) X).outcome = .error (.notFitted l) → Raises m l ⟨.element e, s⟩

/-- A tree can be asked: nothing but certain nodes is blamed, for its answer and its labels. -/
structure Asked (P : Label → Prop) (m : Memory) (q : Node) : Prop where
  reply : ∀ F, Blames P (q.reply m F)
  labels : ∀ F, Blames P (q.labels m F).outcome

theorem asked_of_reply (hn : ∀ l, n.plan ≠ .learner l) (h : ∀ F, Blames P (n.reply m F)) :
    n.Asked P m := by
  refine ⟨h, fun F => ?_⟩
  rw [labels_of_reply hn]
  exact (h F).bind fun output => Memory.singleColumn_blames output

/-- A fitted node answers with its body, unless columns are lacking. -/
theorem asked_of_body {body : Frame → Unit → Logged Frame} (hn : ∀ l, n.plan ≠ .learner l)
    (hfitted : n.isFitted m = true)
    (htransform : ∀ F, n.plan.transform m n.site F = m.guarded n.site (n.isFitted m) F (body F))
    (h : ∀ F, Blames P (body F ()).outcome) : n.Asked P m := by
  refine asked_of_reply hn fun F => ?_
  rw [reply, htransform, hfitted]
  exact Memory.guarded_blames (h F)

theorem labels_blames {parts : List Node} (h : ∀ q ∈ parts, q.Asked P m) :
    Blames P (parts.mapM fun q => (q.labels m F).outcome) :=
  .mapM fun q hq => (h q hq).labels F

theorem asked_sequential (hfitted : isFitted ⟨.sequential ps, s⟩ m = true)
    (ih : ∀ q ∈ zipParts ps s.parts, q.Asked P m) : Asked P m ⟨.sequential ps, s⟩ := by
  refine asked_of_body (fun _ h => nomatch h) hfitted (fun F => by rw [Plan.transform]; rfl)
    fun F => ?_
  rw [Plan.chain_outcome]
  exact .foldlM (fun q hq X => (ih q hq).reply X) F

theorem asked_parallel (hfitted : isFitted ⟨.parallel ps, s⟩ m = true)
    (ih : ∀ q ∈ zipParts ps s.parts, q.Asked P m) : Asked P m ⟨.parallel ps, s⟩ := by
  refine asked_of_body (fun _ h => nomatch h) hfitted (fun F => by rw [Plan.transform]; rfl)
    fun F => ?_
  rw [Logged.outcome_bind, Plan.outputs_outcome]
  exact (Blames.mapM fun q hq => (ih q hq).reply F).bind fun outputs =>
    Memory.concatenate_blames _ outputs

theorem asked_vote (hfitted : isFitted ⟨.vote ps, s⟩ m = true)
    (ih : ∀ q ∈ zipParts ps s.parts, q.Asked P m) : Asked P m ⟨.vote ps, s⟩ := by
  refine asked_of_body (fun _ h => nomatch h) hfitted (fun F => by rw [Plan.transform]; rfl)
    fun F => ?_
  rw [Logged.outcome_bind, Plan.labelsOfAll_outcome]
  refine (labels_blames ih).bind fun members => ?_
  rw [Logged.outcome_bind]
  exact (Blames.majority _).bind fun _ => .ok _

theorem asked_bagging {t : Plan} {settings : BaggingSettings}
    (hfitted : isFitted ⟨.bagging t settings, s⟩ m = true)
    (ih : ∀ q ∈ s.rest.map (Node.mk t), q.Asked P m) : Asked P m ⟨.bagging t settings, s⟩ := by
  refine asked_of_body (fun _ h => nomatch h) hfitted (fun F => by rw [Plan.transform]; rfl)
    fun F => ?_
  rw [Logged.outcome_bind, Plan.labelsOfEach_outcome]
  refine (labels_blames ih).bind fun members => ?_
  cases settings.task with
  | regression =>
    dsimp only
    rw [Logged.outcome_bind]
    exact (Blames.means _).bind fun _ => .ok _
  | classification =>
    dsimp only
    rw [Logged.outcome_bind]
    exact (Blames.majority _).bind fun _ => .ok _

theorem asked_stack {t : Plan} {settings : StackSettings}
    (hfitted : isFitted ⟨.stack t ps settings, s⟩ m = true) (iht : Asked P m ⟨t, s.first⟩)
    (ih : ∀ q ∈ zipParts ps s.rest, q.Asked P m) : Asked P m ⟨.stack t ps settings, s⟩ := by
  refine asked_of_body (fun _ h => nomatch h) hfitted (fun F => by rw [Plan.transform]; rfl)
    fun F => ?_
  rw [Logged.outcome_bind, Plan.labelsOfAll_outcome]
  refine (labels_blames ih).bind fun members => ?_
  rw [Logged.outcome_bind]
  refine (Blames.features _ _ _ F).bind fun stacked => ?_
  rw [Logged.outcome_bind]
  exact (iht.labels stacked).bind fun _ => .ok _

theorem asked_best {policy : SelectionPolicy} (hfitted : isFitted ⟨.best ps policy, s⟩ m = true)
    (ih : ∀ q ∈ zipParts ps s.parts, q.isFitted m = true → q.Asked P m) :
    Asked P m ⟨.best ps policy, s⟩ := by
  refine asked_of_body (fun _ h => nomatch h) hfitted (fun F => by rw [Plan.transform]; rfl)
    fun F => ?_
  rw [Logged.outcome_bind, Plan.labelsAt_outcome]
  refine Blames.bind ?_ fun _ => .ok _
  change (Plan.best ps policy).isFitted m s = true at hfitted
  rw [Plan.isFitted, Bool.and_eq_true] at hfitted
  -- The choice is fitted only if its winner is, and no other part is asked.
  cases hwinner : m.winner s with
  | none =>
    rw [hwinner] at hfitted
    exact absurd hfitted.2 Bool.false_ne_true
  | some i =>
    rw [hwinner] at hfitted
    have hat : Plan.fittedAt m ps s.parts i = true := hfitted.2
    rw [Plan.fittedAt_zipParts, Option.any_eq_true] at hat
    obtain ⟨q, hq, hqfitted⟩ := hat
    rw [Option.getD_some, hq]
    exact (ih q (List.mem_of_getElem? hq) hqfitted).labels F

theorem asked_transformer {t : Transformer} (hfitted : isFitted ⟨.transformer t, s⟩ m = true)
    (hlearns : (Plan.transformer t).Learns (m.slot s.id).learned)
    (hraises : ∀ l, Raises m l ⟨.transformer t, s⟩ → P l) : Asked P m ⟨.transformer t, s⟩ := by
  refine asked_of_body (fun _ h => nomatch h) hfitted (fun F => by rw [Plan.transform]; rfl)
    fun F => ?_
  change (Plan.transformer t).isFitted m s = true at hfitted
  rw [Plan.isFitted, Bool.and_eq_true, Memory.isFittedLeaf] at hfitted
  unfold Memory.applyFitted
  cases hlearned : (m.slot s.id).learned with
  | fitted f =>
    dsimp only
    rw [Fitted.run, Logged.outcome_bind]
    have hanswer : Blames P (f.answer F).outcome := fun l hl => hraises l (.fitted hlearned hl)
    exact hanswer.bind fun _ => .ok _
  | model model =>
    rw [hlearned] at hlearns
    exact hlearns.elim
  | _ =>
    rw [hlearned] at hfitted
    exact absurd hfitted.2 Bool.false_ne_true

theorem asked_learner {l : Learner} (hfitted : isFitted ⟨.learner l, s⟩ m = true)
    (hlearns : (Plan.learner l).Learns (m.slot s.id).learned)
    (hraises : ∀ e, Raises m e ⟨.learner l, s⟩ → P e) : Asked P m ⟨.learner l, s⟩ := by
  have hmodel : ∃ model, (m.slot s.id).learned = .model model := by
    change (Plan.learner l).isFitted m s = true at hfitted
    rw [Plan.isFitted, Bool.and_eq_true, Memory.isFittedLeaf] at hfitted
    cases hlearned : (m.slot s.id).learned with
    | model model => exact ⟨model, rfl⟩
    | fitted f =>
      rw [hlearned] at hlearns
      exact hlearns.elim
    | _ =>
      rw [hlearned] at hfitted
      exact absurd hfitted.2 Bool.false_ne_true
  obtain ⟨model, hmodel⟩ := hmodel
  have hpredict : ∀ X, Blames P (model.predict X).outcome := fun X e he =>
    hraises e (.predict hmodel he)
  have hproba : ∀ f, model.probabilities = some f → ∀ X, Blames P (f X).outcome :=
    fun f hf X e he => hraises e (.probabilities hmodel hf he)
  change (Plan.learner l).isFitted m s = true at hfitted
  refine ⟨fun F => ?_, fun F => ?_⟩
  · rw [reply, Plan.transform, hfitted]
    exact Memory.guarded_blames (Memory.answer_blames hmodel hpredict hproba)
  · change Blames P (m.guarded s ((Plan.learner l).isFitted m s) F fun _ =>
      m.predictions s F).outcome
    rw [hfitted]
    exact Memory.guarded_blames (Memory.predictions_blames hmodel hpredict)

theorem asked_element {e : Element} (hfitted : isFitted ⟨.element e, s⟩ m = true)
    (hraises : ∀ l, Raises m l ⟨.element e, s⟩ → P l) : Asked P m ⟨.element e, s⟩ := by
  refine asked_of_body (fun _ h => nomatch h) hfitted (fun F => by rw [Plan.transform]; rfl)
    fun F l hl => hraises l (.element hl)

theorem asked_of_isFitted (hlearns : n.Throughout fun q => q.plan.Learns (m.slot q.site.id).learned)
    (hfitted : n.isFitted m = true) (hraises : ∀ l, n.Somewhere (Raises m l) → P l) :
    n.Asked P m := by
  induction n using Node.induction with
  | step n ih =>
  have hself : ∀ l, Raises m l n → P l := fun l hl => hraises l (.here hl)
  -- Parts that are not fitted may be there, but are not asked.
  have hasked : ∀ q ∈ n.parts, q.isFitted m = true → q.Asked P m := fun q hq hqfitted =>
    ih q hq (hlearns.part hq) hqfitted fun l hl => hraises l (.part hq hl)
  have hall : ∀ {parts : List Node}, (∀ q ∈ parts, q ∈ n.parts) →
      parts.all (·.isFitted m) = true → ∀ q ∈ parts, q.Asked P m := fun hparts hfitted q hq =>
    hasked q (hparts q hq) (List.all_eq_true.1 hfitted q hq)
  have hconditions := hfitted
  obtain ⟨p, s⟩ := n
  change p.isFitted m s = true at hconditions
  cases p with
  | transformer t => exact asked_transformer hfitted hlearns.self hself
  | learner l => exact asked_learner hfitted hlearns.self hself
  | element e => exact asked_element hfitted hself
  | sequential ps =>
    rw [Plan.isFitted, Bool.and_eq_true, Plan.allFitted_zipParts] at hconditions
    exact asked_sequential hfitted (hall (fun _ hq => hq) hconditions.2)
  | parallel ps =>
    rw [Plan.isFitted, Bool.and_eq_true, Plan.allFitted_zipParts] at hconditions
    exact asked_parallel hfitted (hall (fun _ hq => hq) hconditions.2)
  | vote ps =>
    rw [Plan.isFitted, Bool.and_eq_true, Plan.allFitted_zipParts] at hconditions
    exact asked_vote hfitted (hall (fun _ hq => hq) hconditions.2)
  | stack t ps settings =>
    rw [Plan.isFitted, Bool.and_eq_true, Bool.and_eq_true, Plan.allFitted_zipParts] at hconditions
    exact asked_stack hfitted (hasked _ List.mem_cons_self hconditions.2)
      (hall (fun _ hq => List.mem_cons_of_mem _ hq) hconditions.1.2)
  | best ps policy => exact asked_best hfitted hasked
  | bagging t settings =>
    rw [Plan.isFitted, Bool.and_eq_true] at hconditions
    refine asked_bagging hfitted (hall (fun _ hq => hq) ?_)
    rw [List.all_map]
    exact hconditions.2

end Node

/-- In every state that can be reached, a node that says it is fitted is never refused by a node
below it, only by what a leaf was built from; and one that says it is not refuses all data itself,
without a notice of any other. -/
theorem Reached.refusals {nodes : List Node} (h : Reached nodes m) (hn : n ∈ nodes) (X : Data) :
    (n.isFitted m = true → ∀ l, (n.transform m X).outcome = .error (.notFitted l) →
      n.Somewhere (Node.Raises m l)) ∧
    (n.isFitted m = false → n.transform m X = throw (.notFitted (n.label m))) := by
  refine ⟨fun hfitted => ?_, fun hfitted => ?_⟩
  · have hasked : n.Asked (fun l => n.Somewhere (Node.Raises m l)) m :=
      Node.asked_of_isFitted (h.learns hn) hfitted fun _ hl => hl
    change Blames (fun l => n.Somewhere (Node.Raises m l)) (n.transform m X).outcome
    rw [Node.transform, hfitted]
    change Blames _ (do n.plan.transform m n.site (← X.toFrame) : Logged Frame).outcome
    rw [Logged.outcome_bind]
    exact (Blames.toFrame X).bind hasked.reply
  · rw [Node.transform, hfitted]
    rfl

/-- Two trees that share their parts, of which one was fitted. -/
theorem Reached.refusals_shared :
    let parts : List Plan := [.element .identity, .element .identity]
    let one : Node := ⟨.sequential parts, .mk 2 [.mk 0 [], .mk 1 []]⟩
    let other : Node := ⟨.parallel parts, .mk 3 [.mk 1 [], .mk 0 []]⟩
    let w : Workspace :=
      ⟨⟨#[.fresh (.text "a"), .fresh (.text "b"), .fresh (.text "one"), .fresh (.text "other")]⟩,
        [], false⟩
    let env : Surroundings := ⟨.error (.unusable .value), .builtin⟩
    let m : Memory := (Door.node.fit env one (.frame ⟨[.int 0], []⟩) (.plain .null) w).2.memory
    (∃ nodes, Reached nodes m ∧ one ∈ nodes ∧ other ∈ nodes) ∧
    (one.isFitted m = true ∧ ∀ X l, (one.transform m X).outcome = .error (.notFitted l) →
      one.Somewhere (Node.Raises m l)) ∧
    (other.isFitted m = false ∧ ∀ X, other.transform m X = throw (.notFitted (other.label m))) := by
  intro parts one other w env m
  let a : Node := ⟨.element .identity, .mk 0 []⟩
  let b : Node := ⟨.element .identity, .mk 1 []⟩
  have ha : Reached [a] ⟨#[.fresh (.text "a")]⟩ :=
    .build (w := ⟨.empty, [], false⟩) .start (.leaf (fun _ => rfl) (.text "a")) rfl
  have hb : Reached [b, a] ⟨#[.fresh (.text "a"), .fresh (.text "b")]⟩ :=
    .build (w := ⟨_, [], false⟩) ha (.leaf (fun _ => rfl) (.text "b")) rfl
  have hparts : Part.All (· ∈ [b, a]) [.node a, .node b] := by simp [Part.All]
  have hone : Reached [one, b, a]
      ⟨#[.fresh (.text "a"), .fresh (.text "b"), .fresh (.text "one")]⟩ :=
    .build (w := ⟨_, [], false⟩) hb (.sequential hparts (.text "one")) rfl
  have hparts' : Part.All (· ∈ [one, b, a]) [.node b, .node a] := by simp [Part.All]
  have hother : Reached [other, one, b, a] w.memory :=
    .build (w := ⟨_, [], false⟩) hone (.parallel hparts' (.text "other")) rfl
  have hmem : one ∈ [other, one, b, a] := by simp
  have hmem' : other ∈ [other, one, b, a] := by simp
  have hm : Reached [other, one, b, a] m := .fit env _ _ .node hother hmem
  have hone : one.isFitted m = true := by decide +kernel
  have hother : other.isFitted m = false := by decide +kernel
  exact ⟨⟨_, hm, hmem, hmem'⟩, ⟨hone, fun X => (hm.refusals hmem X).1 hone⟩,
    hother, fun X => (hm.refusals hmem' X).2 hother⟩

end ColumnFlow
