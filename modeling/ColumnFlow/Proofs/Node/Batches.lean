import ColumnFlow.Proofs.Frame.Concatenation
import ColumnFlow.Proofs.Node.Clashing
import ColumnFlow.Proofs.Node.Rowwise
import ColumnFlow.Proofs.Node.Teaching

/-!
# Answers and batches

A tree whose leaves act row by row acts row by row, however composites and ensembles are nested in
it. What is asked of the labels that ensembles take is that they are all texts, or all whole numbers
of 64 bits: then no kind of a column hangs on the rows that happen to be there.
-/
namespace ColumnFlow

/-- Rows of a frame may be taken before or after. -/
def Frame.ByRows (positions : List Nat) (f : Frame → Except Failure Frame) (X : Frame) : Prop :=
  ∀ G, f X = .ok G → G.Rectangular ∧ G.rows = X.rows ∧
    f (X.takeRows positions) = .ok (G.takeRows positions)

def Series.ByRows (positions : List Nat) (f : Frame → Except Failure Series) (X : Frame) : Prop :=
  ∀ S, f X = .ok S → S.cells.length = X.rows ∧
    f (X.takeRows positions) = .ok (S.takeRows positions)

/-- The same for several series, whose labels are all of one kind. -/
def Series.AllByRows (k : CellKind) (positions : List Nat)
    (f : Frame → Except Failure (List Series)) (X : Frame) : Prop :=
  ∀ Ss, f X = .ok Ss → (∀ S ∈ Ss, S.cells.length = X.rows) ∧ (∀ S ∈ Ss, AllOf k S.cells) ∧
    f (X.takeRows positions) = .ok (Ss.map (·.takeRows positions))

namespace Node

/-- All labels of a node for a frame are so. -/
def Gives (m : Memory) (P : Value → Prop) (n : Node) (F : Frame) : Prop :=
  ∀ S, (n.labels m F).outcome = .ok S → ∀ v ∈ S.cells, P v

/-- What a node answers to a frame is made row by row, and so is what a learner predicts, where all
labels that it predicts are so. -/
structure ActsByRow (m : Memory) (P : Value → Prop) (n : Node) : Prop where
  answers : ∀ (X : Frame) (positions : List Nat), X.Rectangular → X.Picks positions →
    (∀ l, n.plan = .learner l → n.Gives m P X) → Frame.ByRows positions (n.reply m) X
  predictions : ∀ l, n.plan = .learner l → ∀ (X : Frame) (positions : List Nat), X.Rectangular →
    X.Picks positions → n.Gives m P X → Series.ByRows positions (fun X => (n.labels m X).outcome) X

/-- While a tree is given a frame, all labels that are predicted in it are so: by its learners, and
by any node for an ensemble. -/
inductive Predicts (m : Memory) (P : Value → Prop) : Node → Frame → Prop
  | node {n : Node} {F : Frame} : (∀ l, n.plan = .learner l → n.Gives m P F) →
    (∀ q A, Asks m F F n q A A → q.Gives m P A) →
      (∀ q A, Passes m F F n q A A → Predicts m P q A) →
        (∀ q A, Asks m F F n q A A → Predicts m P q A) → Predicts m P n F

end Node

variable {m : Memory} {n q : Node} {s : Site} {ps : List Plan} {X : Frame} {k : CellKind}
  {names : List Label} {positions : List Nat}

theorem Series.ByRows.answers {f : Frame → Except Failure Series}
    (h : Series.ByRows positions f X) (hpicks : X.Picks positions) (hk : k.IsPlain)
    (hkind : ∀ S, f X = .ok S → AllOf k S.cells) : Series.AnswersByRows positions f X := by
  intro S hS
  obtain ⟨hlength, hrows⟩ := h S hS
  exact ⟨hlength, hrows, Column.dissolvesAt_of_allOf (hkind S hS) hk hpicks.some
    fun i hi => hlength ▸ hpicks.bound i hi⟩

namespace Frame

theorem sideBySide_takeRows (outputs : List Frame) (X : Frame) (positions : List Nat) :
    sideBySide (outputs.map (·.takeRows positions)) (X.takeRows positions) =
      (sideBySide outputs X).takeRows positions := by
  have hcolumns : (outputs.map (·.takeRows positions)).flatMap (·.columns) =
      (outputs.flatMap (·.columns)).map (·.takeRows positions) := by
    rw [List.flatMap_map, List.map_flatMap]
    rfl
  unfold sideBySide
  dsimp only
  rw [← Frame.relabel_takeRows, hcolumns, List.map_map]
  rfl

theorem Rectangular.sideBySide {outputs : List Frame}
    (h : ∀ f ∈ outputs, f.Rectangular ∧ f.rows = X.rows) :
    (Frame.sideBySide outputs X).Rectangular := by
  refine Frame.Rectangular.relabel (X := ⟨X.index, outputs.flatMap (·.columns)⟩) (fun c hc => ?_) _
  obtain ⟨f, hf, hc⟩ := List.mem_flatMap.1 hc
  exact ((h f hf).1 c hc).trans (h f hf).2

end Frame

namespace Memory

theorem guarded_byRows {fitted : Bool} {body : Frame → Unit → Logged Frame}
    (h : Frame.ByRows positions (fun X => (body X ()).outcome) X) :
    Frame.ByRows positions (fun X => (m.guarded s fitted X (body X)).outcome) X := by
  intro G hG
  obtain ⟨rfl, hlacking, hbody⟩ := Node.guarded_of_ok hG
  obtain ⟨hrect, hrows, htaken⟩ := h G hbody
  refine ⟨hrect, hrows, ?_⟩
  have hnone : m.lacking s (X.takeRows positions) = [] := by
    unfold lacking at hlacking ⊢
    rw [Frame.has_takeRows]
    exact hlacking
  unfold guarded
  dsimp only
  rw [hnone]
  exact htaken

theorem besides_takeRows (names : List Label) (Ss : List Series) (X : Frame)
    (positions : List Nat) :
    besides names (Ss.map (·.takeRows positions)) (X.takeRows positions) =
      (besides names Ss X).takeRows positions := by
  unfold besides
  rw [← Frame.relabel_takeRows, List.map_map]
  unfold Frame.takeRows
  rw [List.map_map]
  rfl

theorem rectangular_besides {Ss : List Series} (h : ∀ S ∈ Ss, S.cells.length = X.rows)
    (names : List Label) : (besides names Ss X).Rectangular := by
  refine Frame.Rectangular.relabel (X := ⟨X.index, Ss.map (·.column)⟩) (fun c hc => ?_) _
  obtain ⟨S, hS, rfl⟩ := List.mem_map.1 hc
  exact h S hS

theorem allOf_besides {Ss : List Series} (h : ∀ S ∈ Ss, AllOf k S.cells) (names : List Label)
    (X : Frame) : (besides names Ss X).AllOf k := by
  intro c hc
  unfold besides Frame.relabel at hc
  rw [← List.map_uncurry_zip_eq_zipWith] at hc
  obtain ⟨⟨d, l⟩, hd, rfl⟩ := List.mem_map.1 hc
  obtain ⟨S, hS, rfl⟩ := List.mem_map.1 (List.of_mem_zip hd).1
  exact h S hS

theorem output_byRows {x : Frame → Except Failure Series}
    (h : Series.AnswersByRows positions x X) :
    Frame.ByRows positions (fun X => x X >>= fun S => .ok (m.output s S X)) X := by
  intro G hG
  obtain ⟨S, hS, hG⟩ := Except.exists_of_bind hG
  obtain rfl := Except.ok.inj hG
  obtain ⟨hlength, htaken, hdissolves⟩ := h S hS
  refine ⟨fun c hc => ?_, rfl, ?_⟩
  · rw [List.mem_singleton.1 hc]
    exact (Series.length_dissolve _).trans hlength
  · dsimp only
    rw [htaken]
    exact congrArg (fun c => Except.ok (Frame.mk (pick positions X.index) [c]))
      (hdissolves (m.label s))

theorem answered_byRows {α : Type} {x : Frame → Except Failure α}
    {g : α → Frame → Except Failure Series}
    (h : Series.AnswersByRows positions (fun X => x X >>= (g · X)) X) :
    Frame.ByRows positions (fun X => x X >>= fun a => g a X >>= fun S => .ok (m.output s S X))
      X := by
  simp only [← bind_assoc]
  exact output_byRows h

theorem singleColumn_byRows {f : Frame → Except Failure Frame} (h : Frame.ByRows positions f X)
    (hpicks : X.Picks positions) :
    Series.ByRows positions (fun X => f X >>= fun C => (m.singleColumn s X C).outcome) X := by
  intro S hS
  obtain ⟨C, hC, hS⟩ := Except.exists_of_bind hS
  obtain ⟨-, -, hrows⟩ := h C hC
  unfold singleColumn at hS
  split at hS
  case h_2 => cases hS
  case h_1 c hc =>
    split at hS
    case isFalse => cases hS
    case isTrue hlength =>
      obtain rfl := Except.ok.inj hS
      refine ⟨hlength, ?_⟩
      have hcolumns : (C.takeRows positions).columns = [c.takeRows positions] := by
        unfold Frame.takeRows
        rw [hc]
        rfl
      have htaken : (c.takeRows positions).cells.length = (X.takeRows positions).rows := by
        rw [Frame.rows_takeRows hpicks]
        exact length_pick_of_lt fun i hi => hlength ▸ hpicks.bound i hi
      dsimp only
      rw [hrows, Except.bind_ok]
      unfold singleColumn
      rw [hcolumns]
      dsimp only
      rw [if_pos htaken]
      rfl

theorem concatenate_byRows {outputs : Frame → Except Failure (List Frame)}
    (hpicks : X.Picks positions)
    (h : ∀ Fs, outputs X = .ok Fs → (∀ F ∈ Fs, F.Rectangular ∧ F.rows = X.rows) ∧
      outputs (X.takeRows positions) = .ok (Fs.map (·.takeRows positions))) :
    Frame.ByRows positions (fun X => outputs X >>= fun Fs => (m.concatenate s names Fs X).outcome)
      X := by
  intro G hG
  obtain ⟨Fs, hFs, hG⟩ := Except.exists_of_bind hG
  obtain ⟨hall, htaken⟩ := h Fs hFs
  obtain ⟨-, rfl⟩ := concatenate_ok hG
  refine ⟨.sideBySide hall, rfl, ?_⟩
  have hrows : ∀ F ∈ Fs.map (·.takeRows positions), F.rows = (X.takeRows positions).rows := by
    intro C hC
    obtain ⟨F, hF, rfl⟩ := List.mem_map.1 hC
    rw [Frame.rows_takeRows hpicks, Frame.rows_takeRows (hpicks.of_rows (hall F hF).2)]
  dsimp only
  rw [htaken, Except.bind_ok, concatenate_of_rows hrows, Frame.sideBySide_takeRows]
  rfl

theorem asked_byRows {f : Frame → Except Failure Frame} {g : Frame → Except Failure Series}
    (hf : Frame.ByRows positions f X)
    (hg : ∀ A, f X = .ok A → A.Rectangular → A.rows = X.rows → Series.AnswersByRows positions g A) :
    Series.AnswersByRows positions (fun X => f X >>= g) X := by
  intro S hS
  obtain ⟨A, hA, hS⟩ := Except.exists_of_bind hS
  obtain ⟨hrect, hrows, htaken⟩ := hf A hA
  obtain ⟨hlength, hlabels, hdissolves⟩ := hg A hA hrect hrows S hS
  refine ⟨hlength.trans hrows, ?_, hdissolves⟩
  dsimp only
  rw [htaken, Except.bind_ok, hlabels]

section Members

variable {members : Frame → Except Failure (List Series)}

/-- What is made of the labels of members side by side. -/
theorem besides_byRows {g : Frame → Except Failure Series}
    (h : Series.AllByRows k positions members X) (hpicks : X.Picks positions)
    (hg : ∀ F : Frame, F.Rectangular → F.AllOf k → F.Picks positions →
      Series.AnswersByRows positions g F) :
    Series.AnswersByRows positions (fun X => members X >>= fun Ss => g (besides names Ss X)) X := by
  intro W hW
  obtain ⟨Ss, hSs, hW⟩ := Except.exists_of_bind hW
  obtain ⟨hlengths, hkinds, htaken⟩ := h Ss hSs
  obtain ⟨hlength, hmade, hdissolves⟩ := hg (besides names Ss X)
    (rectangular_besides hlengths names) (allOf_besides hkinds names X) (hpicks.of_rows rfl) W hW
  refine ⟨hlength, ?_, hdissolves⟩
  dsimp only
  rw [htaken, Except.bind_ok, besides_takeRows]
  exact hmade

theorem features_byRows {codes : List (Scalar × Nat)} {keep : Bool}
    (h : Series.AllByRows k positions members X) (hk : k.IsPlain) (hX : X.Rectangular) :
    Frame.ByRows positions
      (fun X => members X >>= fun Ss => Stacking.features codes keep (besides names Ss X) X) X := by
  intro A hA
  obtain ⟨Ss, hSs, hA⟩ := Except.exists_of_bind hA
  obtain ⟨hlengths, hkinds, htaken⟩ := h Ss hSs
  obtain ⟨hrect, hrows, hfeatures⟩ := Stacking.features_takeRows
    (rectangular_besides hlengths names) hX rfl (allOf_besides hkinds names X) hk hA
  refine ⟨hrect, hrows, ?_⟩
  dsimp only
  rw [htaken, Except.bind_ok, besides_takeRows]
  exact hfeatures positions

end Members

end Memory

namespace Node

theorem labels_byRows (hX : X.Rectangular) (hpicks : X.Picks positions) {P : Value → Prop}
    (hreply : Frame.ByRows positions (n.reply m) X) (hgives : n.Gives m P X)
    (hlearner : ∀ l, n.plan = .learner l → n.ActsByRow m P) :
    Series.ByRows positions (fun X => (n.labels m X).outcome) X := by
  by_cases hl : ∃ l, n.plan = .learner l
  · obtain ⟨l, hl⟩ := hl
    exact (hlearner l hl).predictions l hl X positions hX hpicks hgives
  · have houtcome : (fun X => (n.labels m X).outcome) =
        fun X => n.reply m X >>= fun C => (m.singleColumn n.site X C).outcome :=
      funext fun X => labels_of_reply fun l hnot => hl ⟨l, hnot⟩
    rw [houtcome]
    exact Memory.singleColumn_byRows hreply hpicks

theorem members_byRows {qs : List Node}
    (h : ∀ q ∈ qs, Series.ByRows positions (fun X => (q.labels m X).outcome) X)
    (hkind : ∀ q ∈ qs, q.Gives m (CellKind.of · = k) X) :
    Series.AllByRows k positions (fun X => qs.mapM fun q => (q.labels m X).outcome) X := by
  intro Ss hSs
  refine ⟨fun S hS => ?_, fun S hS => ?_, mapM_ok_map hSs fun q hq S hS => (h q hq S hS).2⟩
  · obtain ⟨q, hq, hlabels⟩ := exists_of_mem_mapM hSs hS
    exact (h q hq S hlabels).1
  · obtain ⟨q, hq, hlabels⟩ := exists_of_mem_mapM hSs hS
    exact hkind q hq S hlabels

/-- A sequence hands rows on as they are taken. -/
theorem chain_byRows (before : List Node) {after : List Node} {A : Frame}
    (hparts : zipParts ps s.parts = before ++ after)
    (hA : before.foldlM (fun A p => p.reply m A) X = .ok A) (hrect : A.Rectangular)
    (hrows : A.rows = X.rows)
    (ih : ∀ q A, Passes m X X ⟨.sequential ps, s⟩ q A A → A.Rectangular → A.rows = X.rows →
      Frame.ByRows positions (q.reply m) A) :
    Frame.ByRows positions (fun A => after.foldlM (fun A p => p.reply m A) A) A := by
  -- On the parts still to come; the parts before them led to `A`.
  induction after generalizing before A with
  | nil =>
    intro G hG
    obtain rfl : A = G := Except.ok.inj hG
    exact ⟨hrect, rfl, rfl⟩
  | cons q after iha =>
    intro G hG
    dsimp only at hG
    rw [List.foldlM_cons] at hG
    obtain ⟨C, hC, hG⟩ := Except.exists_of_bind hG
    obtain ⟨hCrect, hCrows, hCtaken⟩ := ih q A (.turn hparts hA hA) hrect hrows C hC
    have hnext : (before ++ [q]).foldlM (fun A p => p.reply m A) X = .ok C := by
      rw [List.foldlM_append, hA]
      change (q.reply m A >>= fun C => pure C) = _
      rw [hC]
      rfl
    obtain ⟨hGrect, hGrows, hGtaken⟩ :=
      iha (before ++ [q]) (by simp [hparts]) hnext hCrect (hCrows.trans hrows) G hG
    refine ⟨hGrect, hGrows.trans hCrows, ?_⟩
    dsimp only
    rw [List.foldlM_cons, hCtaken, Except.bind_ok]
    exact hGtaken

/-- A tree acts row by row if its leaves do. By induction over the tree. -/
theorem reply_byRows (hk : k.IsPlain)
    (hn : n.Throughout fun q => q.isLeaf = true → q.ActsByRow m (CellKind.of · = k))
    (hplain : n.Predicts m (CellKind.of · = k) X) (hX : X.Rectangular)
    (hpicks : X.Picks positions) : Frame.ByRows positions (n.reply m) X := by
  induction n using Node.induction generalizing X with
  | step n ih =>
  cases hplain with
  | node hself hgives hpassed hasked =>
  -- Members are asked with the frame itself, a stacker with what is made of their labels.
  have hlabels : ∀ q ∈ n.parts, ∀ A : Frame, Asks m X X n q A A → A.Rectangular →
      A.rows = X.rows → Series.ByRows positions (fun X => (q.labels m X).outcome) A := by
    intro q hq A hasks hA hrows
    refine labels_byRows hA (hpicks.of_rows hrows)
      (ih q hq (hn.part hq) (hasked q A hasks) hA (hpicks.of_rows hrows))
      (hgives q A hasks) fun l hl => (hn.part hq).self ?_
    unfold isLeaf
    rw [hl]
  have hmembers : ∀ qs : List Node, (∀ q ∈ qs, q ∈ n.parts ∧ q ∈ n.members m) →
      Series.AllByRows k positions (fun X => qs.mapM fun q => (q.labels m X).outcome) X :=
    fun qs hqs => members_byRows
      (fun q hq => hlabels q (hqs q hq).1 X (.member (hqs q hq).2) hX rfl)
      fun q hq => hgives q X (.member (hqs q hq).2)
  obtain ⟨p, s⟩ := n
  cases p
  case transformer t => exact (hn.self rfl).answers X positions hX hpicks hself
  case learner l => exact (hn.self rfl).answers X positions hX hpicks hself
  case element e => exact (hn.self rfl).answers X positions hX hpicks hself
  all_goals
    unfold reply
    simp only [Plan.transform]
    refine Memory.guarded_byRows ?_
    try simp only [Logged.outcome_bind]
  case sequential ps =>
    simp only [Plan.chain_outcome]
    refine chain_byRows [] rfl rfl hX rfl fun q A hpasses hA hrows => ?_
    have hq : q ∈ parts ⟨.sequential ps, s⟩ := by
      cases hpasses with
      | turn hparts =>
        change q ∈ zipParts ps s.parts
        rw [hparts]
        exact List.mem_append_right _ List.mem_cons_self
    exact ih q hq (hn.part hq) (hpassed q A hpasses) hA (hpicks.of_rows hrows)
  case parallel ps =>
    simp only [Plan.outputs_outcome]
    refine Memory.concatenate_byRows hpicks fun Fs hFs => ?_
    have hbranch : ∀ q ∈ zipParts ps s.parts, Frame.ByRows positions (q.reply m) X :=
      fun q hq => ih q hq (hn.part hq) (hpassed q X (.branch hq)) hX hpicks
    refine ⟨fun F hF => ?_, mapM_ok_map hFs fun q hq F hF => (hbranch q hq F hF).2.2⟩
    obtain ⟨q, hq, hreply⟩ := exists_of_mem_mapM hFs hF
    exact ⟨(hbranch q hq F hreply).1, (hbranch q hq F hreply).2.1⟩
  case vote ps =>
    simp only [Plan.labelsOfAll_outcome]
    exact Memory.answered_byRows (Memory.besides_byRows
      (hmembers (zipParts ps s.parts) fun q hq => ⟨hq, hq⟩) hpicks fun _ => Majority.byRows hk)
  case stack t ps settings =>
    simp only [Plan.labelsOfAll_outcome]
    have hstacked : Frame.ByRows positions (stacked m ps settings s) X :=
      Memory.features_byRows
        (hmembers (zipParts ps s.rest) fun q hq => ⟨List.mem_cons_of_mem _ hq, hq⟩) hk hX
    have hvalues : Series.AnswersByRows positions
        (fun X => stacked m ps settings s X >>= fun A => (labels ⟨t, s.first⟩ m A).outcome) X :=
      Memory.asked_byRows hstacked fun A hA hrect hrows =>
        (hlabels ⟨t, s.first⟩ List.mem_cons_self A (.stacker hA hA) hrect hrows).answers
          (hpicks.of_rows hrows) hk (hgives ⟨t, s.first⟩ A (.stacker hA hA))
    have hanswer := Memory.answered_byRows (m := m) (s := s) hvalues
    simp only [stacked, bind_assoc] at hanswer
    exact hanswer
  case best ps policy =>
    simp only [Plan.labelsAt_outcome]
    refine Memory.output_byRows ?_
    cases hchosen : (zipParts ps s.parts)[(m.winner s).getD 0]? with
    | none =>
      intro S hS
      cases hS
    | some q =>
      have hq : q ∈ zipParts ps s.parts := List.mem_of_getElem? hchosen
      have hmember : q ∈ members m ⟨.best ps policy, s⟩ := Option.mem_toList.2 hchosen
      exact (hlabels q hq X (.member hmember) hX rfl).answers hpicks hk
        (hgives q X (.member hmember))
  case bagging t settings =>
    simp only [Plan.labelsOfEach_outcome]
    have hall := hmembers (s.rest.map (mk t)) fun q hq => ⟨?_, hq⟩
    · cases settings.task with
      | regression =>
        simp only [Logged.outcome_bind]
        exact Memory.answered_byRows (Memory.besides_byRows hall hpicks fun _ => RowMeans.byRows hk)
      | classification =>
        simp only [Logged.outcome_bind]
        exact Memory.answered_byRows (Memory.besides_byRows hall hpicks fun _ => Majority.byRows hk)
    · obtain ⟨r, hr, rfl⟩ := List.mem_map.1 hq
      exact List.mem_map_of_mem hr

end Node
end ColumnFlow
