import ColumnFlow.Proofs.Node.Clashing
import ColumnFlow.Proofs.Node.Teaching

/-!
# Columns go by name

A node looks its columns up by their labels, so the order of the columns does not matter to it, and
other columns do not matter as long as they clash with nothing. They clash where they meet a column
that a node makes, because then one label stands for two columns or is given to another one, and
where they come through to an ensemble, which asks each of its members for a single column. What a
node answers to a frame within another is then within what it answers to the other; and where a tree
ends in a prediction, nothing is left of the difference.
-/
namespace ColumnFlow

namespace Node

/-- The nodes of the library: its transformers, and learners, composites and ensembles of any
kind. -/
def Packaged (n : Node) : Prop :=
  match n.plan with
  | .transformer t => t.BuiltIn
  | .element _ => False
  | _ => True

/-- Learners, ensembles, and sequences that end in one. -/
inductive Predictive : Node → Prop
  | learner (l : Learner) (s : Site) : Predictive ⟨.learner l, s⟩
  | vote (ps : List Plan) (s : Site) : Predictive ⟨.vote ps, s⟩
  | stack (t : Plan) (ps : List Plan) (settings : StackSettings) (s : Site) :
    Predictive ⟨.stack t ps settings, s⟩
  | best (ps : List Plan) (policy : SelectionPolicy) (s : Site) : Predictive ⟨.best ps policy, s⟩
  | bagging (t : Plan) (settings : BaggingSettings) (s : Site) : Predictive ⟨.bagging t settings, s⟩
  | sequential {ps : List Plan} {s : Site} {q : Node} :
    (zipParts ps s.parts).getLast? = some q → Predictive q → Predictive ⟨.sequential ps, s⟩

/-- A node answers to a frame what it answers to any frame within it that has the same labels or
others that do not clash. -/
def Projects (m : Memory) (n : Node) : Prop :=
  ∀ F F' G : Frame, F.Within F' → F'.Within F ∨ ¬ n.Clash m F F' → n.reply m F = .ok G →
    ∃ G', n.reply m F' = .ok G' ∧ G.Within G' ∧ (n.Predictive → G' = G)

variable {m : Memory} {n q : Node} {s : Site} {t : Plan} {ps : List Plan} {F F' G : Frame}
  {settings : StackSettings} {S : Series} {nodes : List Node}

theorem Projects.apply (h : n.Projects m) (hF : F.Within F')
    (hquiet : F'.Within F ∨ ¬ n.Clash m F F') (hG : n.reply m F = .ok G) :
    ∃ G', n.reply m F' = .ok G' ∧ G.Within G' ∧ (n.Predictive → G' = G) ∧
      (F'.Within F → G'.Within G) := by
  obtain ⟨G', hG', hwithin, hsame⟩ := h F F' G hF hquiet hG
  refine ⟨G', hG', hwithin, hsame, fun hF' => ?_⟩
  -- Frames with the same labels can change places.
  obtain ⟨G'', hG'', hback, -⟩ := h F' F G' hF' (.inl hF) hG'
  obtain rfl : G = G'' := Except.ok.inj (hG.symm.trans hG'')
  exact hback

/-! Leaves. -/

/-- A transformer that answers remembers columns, all of which the frame has, and answers by what it
has learned. -/
theorem exists_knowledge {t : Transformer} (hG : reply m ⟨.transformer t, s⟩ F = .ok G) :
    ∃ labels f, m.inputColumns s = some labels ∧ (m.slot s.id).learned = .fitted f ∧
      m.lacking s F = [] ∧ (f.run F).outcome = .ok G := by
  simp only [reply, Plan.transform] at hG
  obtain ⟨hfitted, hlacking, hrun⟩ := guarded_of_ok hG
  simp only [Plan.isFitted, Bool.and_eq_true] at hfitted
  obtain ⟨labels, hlabels⟩ := Option.isSome_iff_exists.1 hfitted.1
  unfold Memory.applyFitted at hrun
  cases hlearned : (m.slot s.id).learned <;> simp only [hlearned] at hrun
  case fitted f => exact ⟨labels, f, hlabels, rfl, hlacking, hrun⟩
  all_goals cases hrun

theorem projects_transformer {t : Transformer} (ht : t.BuiltIn)
    (hsource : ∀ labels f, m.inputColumns s = some labels → (m.slot s.id).learned = .fitted f →
      t.Teaches labels f) : Projects m ⟨.transformer t, s⟩ := by
  intro F F' G hF hquiet hG
  have hspares : F.Spares F' G := by
    rcases hquiet with hF' | hclash
    · exact hF'.spares G
    · exact not_not.1 fun hnot => hclash (.created hG hnot)
  obtain ⟨labels, f, hlabels, hlearned, hlacking, hrun⟩ := exists_knowledge hG
  obtain ⟨X, rfl, hX⟩ := hsource labels f hlabels hlearned
  have hmem := Memory.mem_of_lacking hF.texts hlacking
  rw [hlabels, Option.getD_some] at hmem
  have hf := ht.byLabel (fun l hl => hF.texts l (hmem l hl)) hX
  obtain ⟨G', hG', hwithin⟩ := hf F F' G hF hmem hspares hrun
  refine ⟨G', ?_, hwithin, fun h => nomatch h⟩
  simp only [reply, Plan.transform] at hG ⊢
  rw [Memory.guarded_within hF hG]
  unfold Memory.applyFitted
  rw [hlearned]
  exact hG'

theorem projects_learner (l : Learner) (hname : (m.label s).isText = true) :
    Projects m ⟨.learner l, s⟩ := by
  intro F F' G hF _ hG
  simp only [reply, Plan.transform] at hG ⊢
  obtain ⟨-, hlacking, hrun⟩ := guarded_of_ok hG
  rw [Memory.guarded_within hF hG, Memory.answer_within hF hlacking]
  exact ⟨G, hrun, .refl (Memory.texts_answer hname hrun), fun _ => rfl⟩

/-! Composites. -/

theorem quiet_passed {A A' : Frame} (hquiet : F'.Within F ∨ ¬ n.Clash m F F')
    (hpasses : Passes m F F' n q A A') (hback : F'.Within F → A'.Within A) :
    A'.Within A ∨ ¬ q.Clash m A A' :=
  hquiet.imp hback fun hclash h => hclash (.passed hpasses h)

theorem rows_of_within {B : Frame} {Cs Cs' : List Frame} {k : Nat}
    (h : List.Forall₂ (fun C C' => C.Within C' ∧ ¬ C.Meets C' B) Cs Cs')
    (hk : ∀ C ∈ Cs, C.rows = k) : ∀ C' ∈ Cs', C'.rows = k := by
  induction h with
  | nil => simp
  | cons hfirst _ ih =>
    simp only [List.forall_mem_cons] at hk ⊢
    exact ⟨hfirst.1.rows.trans hk.1, ih hk.2⟩

theorem projects_parallel (ih : ∀ q ∈ zipParts ps s.parts, q.Projects m) :
    Projects m ⟨.parallel ps, s⟩ := by
  intro F F' G hF hquiet hG
  have hrun := hG
  simp only [reply, Plan.transform] at hrun ⊢
  obtain ⟨-, -, hbody⟩ := guarded_of_ok hrun
  obtain ⟨Cs, hCs, hjoin⟩ := Logged.exists_of_bind hbody
  obtain ⟨hrows, rfl⟩ := Memory.concatenate_ok hjoin
  rw [Plan.outputs_outcome] at hCs
  -- What the others bring along must not meet the join of the answers, which is the answer `G`.
  obtain ⟨Cs', hCs', hall⟩ := mapM_follows
    (R := fun C C' => C.Within C' ∧ ¬ C.Meets C' (Frame.sideBySide Cs F)) (fun q hq C hC => by
      obtain ⟨C', hC', hwithin, -, hback⟩ := (ih q hq).apply hF
        (quiet_passed hquiet (.branch hq) id) hC
      refine ⟨C', hC', hwithin, ?_⟩
      rcases hquiet with hF' | hclash
      · exact (hback hF').not_meets _
      · exact fun hmeets => hclash (.joined hq hC hC' hG hmeets)) hCs
  have hrows' := rows_of_within hall hrows
  rw [← hF.rows] at hrows'
  refine ⟨Frame.sideBySide Cs' F', ?_, Frame.within_sideBySide hall hF.index, fun h => by cases h⟩
  rw [Memory.guarded_within hF hrun, Logged.outcome_bind, Plan.outputs_outcome, hCs']
  exact congrArg Logged.outcome (Memory.concatenate_of_rows hrows' m s _)

/-- A chain hands on frames that are within each other, from one part to the next. -/
theorem foldlM_follows {A A' : Frame} {before after : List Node}
    (ih : ∀ q ∈ zipParts ps s.parts, q.Projects m)
    (hquiet : F'.Within F ∨ ¬ Clash m ⟨.sequential ps, s⟩ F F')
    (hparts : zipParts ps s.parts = before ++ after)
    (hA : before.foldlM (fun A p => p.reply m A) F = .ok A)
    (hA' : before.foldlM (fun A p => p.reply m A) F' = .ok A') (hwithin : A.Within A')
    (hback : F'.Within F → A'.Within A)
    (hG : after.foldlM (fun A p => p.reply m A) A = .ok G) :
    ∃ G', after.foldlM (fun A p => p.reply m A) A' = .ok G' ∧ G.Within G' ∧
      ∀ q, after.getLast? = some q → q.Predictive → G' = G := by
  -- On the parts still to come; the parts before them led to `A` and `A'`, which is what a clash
  -- further on is about.
  induction after generalizing before A A' with
  | nil =>
    obtain rfl := Except.ok.inj hG
    exact ⟨A', rfl, hwithin, fun q hq => nomatch hq⟩
  | cons q after iha =>
    rw [List.foldlM_cons] at hG ⊢
    obtain ⟨C, hC, hG⟩ := Except.exists_of_bind hG
    have hpasses := Passes.turn hparts hA hA'
    obtain ⟨C', hC', hCwithin, hsame, hCback⟩ := (ih q (by simp [hparts])).apply hwithin
      (quiet_passed hquiet hpasses hback) hC
    have hnext : ∀ {F A C : Frame}, before.foldlM (fun A p => p.reply m A) F = .ok A →
        q.reply m A = .ok C → (before ++ [q]).foldlM (fun A p => p.reply m A) F = .ok C := by
      intro F A C hA hC
      rw [List.foldlM_append, hA]
      change (q.reply m A >>= fun C => pure C) = _
      rw [hC]
      rfl
    obtain ⟨G', hG', hGwithin, hlast⟩ := iha (by simp [hparts]) (hnext hA hC) (hnext hA' hC')
      hCwithin (fun h => hCback (hback h)) hG
    refine ⟨G', by rw [hC']; exact hG', hGwithin, fun p hp hpredictive => ?_⟩
    cases after with
    | nil =>
      obtain rfl : q = p := Option.some.inj hp
      obtain rfl := Except.ok.inj hG
      obtain rfl := Except.ok.inj hG'
      exact hsame hpredictive
    | cons => exact hlast p hp hpredictive

theorem projects_sequential (ih : ∀ q ∈ zipParts ps s.parts, q.Projects m) :
    Projects m ⟨.sequential ps, s⟩ := by
  intro F F' G hF hquiet hG
  simp only [reply, Plan.transform] at hG ⊢
  obtain ⟨-, -, hrun⟩ := guarded_of_ok hG
  rw [Plan.chain_outcome] at hrun
  obtain ⟨G', hG', hwithin, hlast⟩ := foldlM_follows ih hquiet (List.nil_append _).symm rfl rfl hF
    id hrun
  refine ⟨G', ?_, hwithin, fun h => ?_⟩
  · rw [Memory.guarded_within hF hG, Plan.chain_outcome, hG']
  · cases h with
    | sequential hq hpredictive => exact hlast _ hq hpredictive

/-! Ensembles. -/

/-- An ensemble gets the same labels of its parts, unless they answer with other columns. -/
theorem labels_asked {A A' : Frame} (hq : q.Projects m) (hasks : Asks m F F' n q A A')
    (hA : A.Within A') (hquiet : F'.Within F ∨ ¬ n.Clash m F F')
    (hback : F'.Within F → A'.Within A) (hS : (q.labels m A).outcome = .ok S) :
    (q.labels m A').outcome = .ok S := by
  by_cases hlearner : ∃ l, q.plan = .learner l
  · obtain ⟨p, s⟩ := q
    obtain ⟨l, rfl⟩ := hlearner
    change (m.guarded s _ A fun _ => m.predictions s A).outcome = .ok S at hS
    obtain ⟨-, hlacking, hrun⟩ := guarded_of_ok hS
    change (m.guarded s _ A' fun _ => m.predictions s A').outcome = .ok S
    rw [Memory.guarded_within hA hS, Memory.predictions_within hA hlacking]
    exact hrun
  · rw [not_exists] at hlearner
    rw [labels_of_reply hlearner] at hS ⊢
    obtain ⟨C, hC, hS⟩ := Except.exists_of_bind hS
    obtain ⟨C', hC', hwithin, -, hCback⟩ := hq.apply hA
      (hquiet.imp hback fun hclash h => hclash (.asked hasks h)) hC
    have hall : ∀ l ∈ C'.labels, l ∈ C.labels := by
      intro l hl
      rcases hquiet with hF' | hclash
      · exact (hCback (hback hF')).mem hl
      · by_contra hnot
        exact hclash (.leaked hasks hC hC' hl hnot)
    rw [hC']
    exact Memory.singleColumn_within hA hwithin hall hS

theorem labels_members {nodes : List Node} {Ss : List Series} (ih : ∀ q ∈ nodes, q.Projects m)
    (hasks : ∀ q ∈ nodes, Asks m F F' n q F F') (hF : F.Within F')
    (hquiet : F'.Within F ∨ ¬ n.Clash m F F')
    (hSs : (nodes.mapM fun q => (q.labels m F).outcome) = .ok Ss) :
    (nodes.mapM fun q => (q.labels m F').outcome) = .ok Ss := by
  obtain ⟨Ss', hSs', hall⟩ := mapM_follows (R := Eq)
    (fun q hq S hS => ⟨S, labels_asked (ih q hq) (hasks q hq) hF hquiet id hS, rfl⟩) hSs
  rw [List.forall₂_eq_eq_eq] at hall
  rw [hall]
  exact hSs'

theorem projects_of_values {p : Plan} (values : Frame → Logged Series)
    (htransform : ∀ F, p.transform m s F = m.guarded s (p.isFitted m s) F fun _ =>
      values F >>= fun V => pure (m.output s V F))
    (hname : (m.label s).isText = true)
    (hvalues : ∀ F F' V, F.Within F' → F'.Within F ∨ ¬ Clash m ⟨p, s⟩ F F' →
      (values F).outcome = .ok V → (values F').outcome = .ok V) : Projects m ⟨p, s⟩ := by
  intro F F' G hF hquiet hG
  simp only [reply, htransform] at hG ⊢
  obtain ⟨-, -, hrun⟩ := guarded_of_ok hG
  obtain ⟨V, hV, hrun⟩ := Logged.exists_of_bind hrun
  obtain rfl := Except.ok.inj hrun
  refine ⟨_, ?_, .refl (Memory.texts_output hname V F), fun _ => rfl⟩
  rw [Memory.guarded_within hF hG, Logged.outcome_bind, hvalues F F' V hF hquiet hV,
    ← Memory.output_within hF]
  rfl

theorem projects_vote (hname : (m.label s).isText = true)
    (ih : ∀ q ∈ zipParts ps s.parts, q.Projects m) : Projects m ⟨.vote ps, s⟩ := by
  refine projects_of_values (fun F => do
    let members ← Plan.labelsOfAll m ps s.parts F
    Majority.ofFrame (Memory.besides (m.labelsOf s.parts) members F))
    (fun F => by simp only [Plan.transform, bind_assoc]) hname fun F F' V hF hquiet hV => ?_
  obtain ⟨Ss, hSs, hV⟩ := Logged.exists_of_bind hV
  rw [Plan.labelsOfAll_outcome] at hSs
  have hSs' := labels_members (n := ⟨.vote ps, s⟩) ih (fun q hq => .member hq) hF hquiet hSs
  rw [Logged.outcome_bind, Plan.labelsOfAll_outcome, hSs']
  change (liftM _ : Logged Series).outcome = _
  rw [Memory.besides_within hF]
  exact hV

/-- What a bagging ensemble makes of the predictions of its members. -/
def combined (task : Task) (predictions : Frame) : Logged Series :=
  match task with
  | .regression => RowMeans.ofFrame predictions
  | .classification => Majority.ofFrame predictions

theorem projects_bagging (hname : (m.label s).isText = true)
    (ih : ∀ q ∈ s.rest.map (Node.mk t), q.Projects m) (settings : BaggingSettings) :
    Projects m ⟨.bagging t settings, s⟩ := by
  refine projects_of_values (fun F => do
    let members ← s.rest.mapM fun r => m.labels t r F fun _ => t.transform m r F
    combined settings.task (Memory.besides (m.labelsOf s.rest) members F))
    (fun F => by
      cases htask : settings.task <;> simp only [Plan.transform, bind_assoc, htask, combined])
    hname fun F F' V hF hquiet hV => ?_
  obtain ⟨Ss, hSs, hV⟩ := Logged.exists_of_bind hV
  rw [Plan.labelsOfEach_outcome] at hSs
  have hSs' := labels_members (n := ⟨.bagging t settings, s⟩) ih (fun q hq => .member hq) hF hquiet
    hSs
  rw [Logged.outcome_bind, Plan.labelsOfEach_outcome, hSs']
  change (combined settings.task _).outcome = _
  rw [Memory.besides_within hF]
  exact hV

theorem projects_best (hname : (m.label s).isText = true)
    (ih : ∀ q ∈ zipParts ps s.parts, q.Projects m) (policy : SelectionPolicy) :
    Projects m ⟨.best ps policy, s⟩ := by
  refine projects_of_values (Plan.labelsAt m ps s.parts ((m.winner s).getD 0))
    (fun F => by rw [Plan.transform]) hname fun F F' V hF hquiet hV => ?_
  rw [Plan.labelsAt_outcome] at hV ⊢
  cases hq : (zipParts ps s.parts)[(m.winner s).getD 0]? with
  | none =>
    rw [hq] at hV
    cases hV
  | some q =>
    rw [hq] at hV
    have hmember : q ∈ members m ⟨.best ps policy, s⟩ := by
      change q ∈ ((zipParts ps s.parts)[(m.winner s).getD 0]?).toList
      rw [hq]
      exact List.mem_singleton_self q
    exact labels_asked (ih q (List.mem_of_getElem? hq)) (.member hmember) hF hquiet id hV

/-! Stacks. -/

theorem stacked_follows {A : Frame} (hnames : ∀ l ∈ m.labelsOf s.rest, l.isText = true)
    (ih : ∀ q ∈ zipParts ps s.rest, q.Projects m) (hF : F.Within F')
    (hquiet : F'.Within F ∨ ¬ Clash m ⟨.stack t ps settings, s⟩ F F')
    (hA : stacked m ps settings s F = .ok A) :
    ∃ A', stacked m ps settings s F' = .ok A' ∧ A.Within A' ∧ (F'.Within F → A'.Within A) := by
  have hspares : settings.keepOriginal.isTrue = true → F.Spares F' A := by
    intro hkeep
    rcases hquiet with hF' | hclash
    · exact hF'.spares A
    · exact not_not.1 fun hnot => hclash (.kept hkeep hA hnot)
  unfold stacked at hA ⊢
  obtain ⟨Ss, hSs, hA⟩ := Except.exists_of_bind hA
  rw [labels_members (n := ⟨.stack t ps settings, s⟩) ih (fun q hq => .member hq) hF hquiet hSs,
    Except.bind_ok, Memory.besides_within hF]
  exact Stacking.features_within (Memory.texts_besides hnames Ss F) hF hspares hA

theorem projects_stack (hname : (m.label s).isText = true)
    (hnames : ∀ l ∈ m.labelsOf s.rest, l.isText = true)
    (ih : ∀ q ∈ zipParts ps s.rest, q.Projects m) (iht : Projects m ⟨t, s.first⟩)
    (settings : StackSettings) : Projects m ⟨.stack t ps settings, s⟩ := by
  let values (F : Frame) : Logged Series := do
    let members ← Plan.labelsOfAll m ps s.rest F
    let A ← Stacking.features (Stacking.stored m s) settings.keepOriginal.isTrue
      (Memory.besides (m.labelsOf s.rest) members F) F
    labels ⟨t, s.first⟩ m A
  have hvalues : ∀ F, (values F).outcome =
      stacked m ps settings s F >>= fun A => (labels ⟨t, s.first⟩ m A).outcome := by
    intro F
    simp only [values, stacked, Logged.outcome_bind, Plan.labelsOfAll_outcome, bind_assoc]
    rfl
  refine projects_of_values values (fun F => ?_) hname fun F F' V hF hquiet hV => ?_
  · simp only [Plan.transform, values, bind_assoc]
    rfl
  rw [hvalues] at hV ⊢
  obtain ⟨A, hA, hV⟩ := Except.exists_of_bind hV
  obtain ⟨A', hA', hwithin, hback⟩ := stacked_follows hnames ih hF hquiet hA
  rw [hA', Except.bind_ok]
  exact labels_asked iht (.stacker hA hA') hwithin hquiet hback hV

/-- A tree of library nodes, after anything that may have happened to it. -/
structure Deployed (r : Roster) (w : Workspace) (n : Node) : Prop where
  reached : r.Reaches w
  listed : n.Throughout r.Lists
  packaged : n.Throughout Packaged
  named : ∀ i ∈ n.site.ids, (w.memory.slot i).name.isText = true

theorem Deployed.part {r : Roster} {w : Workspace} (h : n.Deployed r w) (hq : q ∈ n.parts) :
    q.Deployed r w where
  reached := h.reached
  listed := h.listed.part hq
  packaged := h.packaged.part hq
  named i hi := h.named i (ids_of_mem_parts hq hi)

/-- Trees of library nodes answer a frame and whatever it is within alike. By induction over the
tree. -/
theorem Deployed.projects {r : Roster} {w : Workspace} (h : n.Deployed r w) :
    n.Projects w.memory := by
  induction n using Node.induction with
  | step n ih =>
  have hparts : ∀ q ∈ n.parts, q.Projects w.memory := fun q hq => ih q hq (h.part hq)
  have hname : (w.memory.label n.site).isText = true := h.named _ n.site.id_mem_ids
  have hself := h.packaged.self
  have hlisted := h.listed.self
  obtain ⟨p, s⟩ := n
  cases p with
  | transformer t =>
    exact projects_transformer hself fun labels f hlabels hf => h.reached.teaches hlisted hlabels hf
  | learner l => exact projects_learner l hname
  | element e => exact hself.elim
  | sequential ps => exact projects_sequential hparts
  | parallel ps => exact projects_parallel hparts
  | vote ps => exact projects_vote hname hparts
  | stack t ps settings =>
    refine projects_stack hname (fun l hl => ?_)
      (fun q hq => hparts q (List.mem_cons_of_mem _ hq)) (hparts _ List.mem_cons_self) settings
    obtain ⟨r, hr, rfl⟩ := List.mem_map.1 hl
    exact h.named _ (Site.mem_ids_of_mem_idsOf_rest (Site.mem_idsOf.2 ⟨r, hr, r.id_mem_ids⟩))
  | best ps policy => exact projects_best hname hparts policy
  | bagging t settings => exact projects_bagging hname hparts settings

end Node
end ColumnFlow
