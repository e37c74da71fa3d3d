import ColumnFlow.Proofs.CrossValidation.Unseen
import ColumnFlow.Proofs.Node.Settling
import ColumnFlow.Proofs.Node.Votes
import ColumnFlow.Proofs.Split.Holdouts

/-!
# Rows that the members of a stack do not see

A stack trains its members on some rows, and its stacker on what they predict for the others.
Without classes the rows are divided by their number. Whatever stands in the rows that are held out,
the members learn the same, as long as the stacker is no member and has no part in one. The stacker
learns from one row for every row held out, beside the target of that row.
-/
namespace ColumnFlow

/-- The rows for the members and those for the stacker, among `n` rows without classes. -/
def StackSettings.split (settings : StackSettings) (defaults : Settings) (n : Nat) :
    Except Failure Holdout :=
  Holdout.split n (settings.proportion.given (.float defaults.stackerTrainingProportion))
    (some (settings.seed.unlessNull (.int defaults.randomState))) none

namespace Plan

variable {env : Surroundings} {t : Plan} {ps : List Plan} {settings : StackSettings} {s : Site}
  {ss : List Site} {defaults : Settings} {F F' X : Frame} {y y' target target' : Series}
  {split : Holdout} {m m' : Memory} {w w' : Workspace}

/-- Fits the members of a stack on their rows, for the data of the stacker on the others. -/
def fitMembers (env : Surroundings) (ps : List Plan) (settings : StackSettings) (s : Site)
    (F : Frame) (target : Series) (split : Holdout) : Work (Frame × Series) := do
  Work.setLearned s (.codes (← Stacking.codes target))
  fitAll env ps s.rest (F.takeRows split.train) (some (target.takeRows split.train))
  let stacked ← stackedFeatures ps settings s (F.takeRows split.test)
  return (stacked, target.takeRows split.test)

/-- Fits the members of a stack and then its stacker, each on its rows. -/
def fitApart (env : Surroundings) (t : Plan) (ps : List Plan) (settings : StackSettings) (s : Site)
    (F : Frame) (target : Series) (split : Holdout) : Work Unit := do
  let (stacked, labels) ← fitMembers env ps settings s F target split
  fit env t s.first stacked (some labels)
  Work.setInput s (some F.labels)

theorem fit_stack (hplain : settings.stratify.isTrue = false)
    (hdefaults : env.settings = .ok defaults)
    (hsplit : settings.split defaults F.rows = .ok split)
    (htarget : alignTarget (some y) F = .ok (some target)) (w : Workspace) :
    fit env (.stack t ps settings) s F (some y) w = fitApart env t ps settings s F target split
      { w with memory := w.memory.withInput s none, consulted := true } := by
  unfold StackSettings.split at hsplit
  rw [fit, Work.fitting, htarget, Work.run_ok_bind, Work.run_setInput_bind]
  simp only [Work.requireTarget, pure_bind, bind_assoc, hplain, Bool.false_eq_true, if_false]
  rw [Work.run_bind, Work.run_settings hdefaults]
  dsimp only
  rw [hsplit, Work.run_ok_bind]
  simp only [fitApart, fitMembers, bind_assoc, pure_bind]

/-! The members. -/

theorem fitAll_target (h : alignTarget (some y) X = alignTarget (some y') X) :
    fitAll env ps ss X (some y) = fitAll env ps ss X (some y') := by
  induction ps generalizing ss with
  | nil => simp only [fitAll]
  | cons p ps ih =>
    cases ss with
    | nil => simp only [fitAll]
    | cons s ss => simp only [fitAll, Node.fit_target h, ih]

theorem stackedFeatures_keeps {I : Memory → Prop} :
    Work.Keeps I (stackedFeatures ps settings s X) :=
  .reading fun _ => .bind (.steady (.logged _)) fun _ => .steady (.except _)

/-- What comes after the members were fitted changes the stacker and the stack alone. -/
theorem rest_keeps (hn : ∀ i ∈ s.ids, i < w.memory.next) (F : Frame) (target : Series)
    (split : Holdout) :
    Work.Keeps (Memory.Extends (s.id :: s.first.ids) w.memory) (do
      let stacked ← stackedFeatures ps settings s (F.takeRows split.test)
      fit env t s.first stacked (some (target.takeRows split.test))
      Work.setInput s (some F.labels)) := by
  refine stackedFeatures_keeps.bind fun stacked => .bind (fun v hv => ?_) fun _ v hv => ?_
  · have hfirst := fit_extends env t stacked (some (target.takeRows split.test)) (w := v)
      fun i hi => Nat.lt_of_lt_of_le (hn i (Site.mem_ids_of_mem_first hi)) hv.next_le
    exact hv.trans (hfirst.mono fun _ hi => List.mem_cons_of_mem _ hi) fun _ hi => .inl hi
  · have hinput := v.memory.extends_withInput_self s (some F.labels)
    exact hv.trans (hinput.mono (List.cons_subset_cons s.id (List.nil_subset _)))
      fun _ hi => .inl hi

/-- The members of a stack come out alike of two fits in which they are given the same, whatever the
stacker is given. -/
theorem fitApart_mirrors (hn : ∀ i ∈ s.ids, i < w.memory.next) (hself : s.id ∉ Site.idsOf s.rest)
    (hapart : s.first.ids.Disjoint (Site.idsOf s.rest))
    (hX : F.takeRows split.train = F'.takeRows split.train)
    (hy : ∀ Z, alignTarget (some (target.takeRows split.train)) Z =
      alignTarget (some (target'.takeRows split.train)) Z)
    (hcodes : (Stacking.codes target).isOk = (Stacking.codes target').isOk) :
    Memory.Mirrors id (Site.idsOf s.rest) (fitApart env t ps settings s F target split w).2.memory
      (fitApart env t ps settings s F' target' split w).2.memory := by
  have hids : ∀ i ∈ Site.idsOf s.rest, i < w.memory.next := fun i hi =>
    hn i (Site.mem_ids_of_mem_idsOf_rest hi)
  have houtside : ∀ i ∈ Site.idsOf s.rest, i ∉ s.id :: s.first.ids := fun i hi hnot => by
    rcases List.mem_cons.1 hnot with rfl | hfirst
    · exact hself hi
    · exact hapart hfirst hi
  have hlearn : ∀ l, Memory.Extends [s.id] w.memory (w.memory.withLearned s l) := fun l =>
    .update List.mem_cons_self (fun _ => by rfl) _
  have hstart : Memory.Mirrors id (Site.idsOf s.rest) w.memory w.memory :=
    (Memory.Extends.refl [] _).mirrors hids fun _ _ => List.not_mem_nil
  unfold fitApart fitMembers
  simp only [bind_assoc, pure_bind]
  rcases hc : Stacking.codes target with e | codes <;>
    rcases hc' : Stacking.codes target' with e' | codes' <;> rw [hc, hc'] at hcodes
  · exact hstart
  · cases hcodes
  · cases hcodes
  · rw [Work.run_ok_bind, Work.run_ok_bind, Work.run_setLearned_bind, Work.run_setLearned_bind,
      ← hX, ← fitAll_target (hy _)]
    have hnot : ∀ i ∈ Site.idsOf s.rest, i ∉ [s.id] := fun i hi hid =>
      hself (List.mem_singleton.1 hid ▸ hi)
    have hlearned := hstart.keep ⟨hlearn (.codes codes), hlearn (.codes codes')⟩ hnot hnot
    refine Work.Matched.memories ((fitAll_alongside env ps _ _ (List.Subset.refl _) _ _
      hlearned.tracks).mono (fun _ _ _ _ h => h.2) fun _ _ h => h.mirrors) fun _ _ v v' hv => ?_
    have hnv : ∀ i ∈ s.ids, i < v.memory.next := fun i hi => Nat.lt_of_lt_of_le (hn i hi)
      (Nat.le_trans (hlearn (.codes codes)).next_le hv.kept.1.next_le)
    have hnv' : ∀ i ∈ s.ids, i < v'.memory.next := fun i hi => Nat.lt_of_lt_of_le (hn i hi)
      (Nat.le_trans (hlearn (.codes codes')).next_le hv.kept.2.next_le)
    exact hv.mirrors.keep ⟨rest_keeps hnv F target split v (.refl _ _),
      rest_keeps hnv' F' target' split v' (.refl _ _)⟩ houtside houtside

end Plan

/-! The stacker. -/

namespace Stacking

variable {codes : List (Scalar × Nat)} {keep : Bool} {P X A : Frame} {c d : Column}

/-- Cells as they are, or their places among the labels. -/
def Coded (codes : List (Scalar × Nat)) (cells cells' : List Value) : Prop :=
  cells' = cells ∨ cells' = cells.map (code codes)

theorem Coded.length_eq {cells cells' : List Value} (h : Coded codes cells cells') :
    cells'.length = cells.length := by
  rcases h with rfl | rfl
  · rfl
  · exact List.length_map _

theorem Coded.lengths_eq {rows rows' : List (List Value)}
    (h : List.Forall₂ (Coded codes) rows rows') :
    rows.map List.length = rows'.map List.length := by
  rw [← List.forall₂_eq_eq_eq, List.forall₂_map_left_iff, List.forall₂_map_right_iff]
  exact h.imp fun _ _ hc => hc.length_eq.symm

theorem coded_cells (h : coded codes c = .ok d) : Coded codes c.cells d.cells := by
  unfold coded at h
  split at h
  · exact .inl (congrArg Column.cells (Except.ok.inj h)).symm
  · repeat' split at h
    all_goals first
      | exact .inr (congrArg Column.cells (Except.ok.inj h)).symm
      | cases h

/-- Coded predictions come after the features that are kept. -/
theorem exists_columns (h : features codes keep P X = .ok A) :
    ∃ ds, A.columns = (if keep then X.columns else []) ++ ds ∧
      A.index = (if keep then X.index else P.index) ∧
      List.Forall₂ (Coded codes) (P.columns.map (·.cells)) (ds.map (·.cells)) := by
  unfold features at h
  obtain ⟨cs, hcs, h⟩ := Except.exists_of_bind h
  have hall : List.Forall₂ (Coded codes) (P.columns.map (·.cells)) (cs.map (·.cells)) :=
    List.forall₂_map_left_iff.2 (List.forall₂_map_right_iff.2
      ((forall₂_of_mapM hcs).imp fun _ _ hd => coded_cells hd))
  cases keep with
  | false =>
    obtain rfl := Except.ok.inj h
    exact ⟨cs, rfl, rfl, hall⟩
  | true =>
    obtain rfl := Except.ok.inj h
    refine ⟨_, rfl, rfl, ?_⟩
    rw [Frame.cells_relabel]
    · exact hall
    · simp [Frame.labels]

end Stacking

namespace Node

variable {env : Surroundings} {t : Plan} {ps : List Plan} {settings : StackSettings} {s : Site}
  {defaults : Settings} {F F' X A : Frame} {y y' target target' b : Series} {split : Holdout}
  {held : List Nat} {m : Memory} {w u : Workspace}

/-- Rows for a stacker, one for every row of `held` and beside the target of this row: what the
members predict for it, as it is or as a place, after the features of the row if these are kept. -/
structure StacksRows (m : Memory) (members : List Node) (codes : List (Scalar × Nat)) (keep : Bool)
    (F : Frame) (target : Series) (held : List Nat) (A : Frame) (b : Series) : Prop where
  rows : A.rows = held.length
  rectangular : A.Rectangular
  index : ∀ j i : Nat, held[j]? = some i → A.index[j]? = F.index[i]?
  columns : ∃ Ss ds, A.columns = (if keep then (F.takeRows held).columns else []) ++ ds ∧
    List.Forall₂ (fun q S => (q.labels m (F.takeRows held)).outcome = .ok S) members Ss ∧
    List.Forall₂ (Stacking.Coded codes) (Ss.map (·.cells)) (ds.map (·.cells))
  targets : b.rows = held.length
  target : ∀ j i : Nat, held[j]? = some i → b.cells[j]? = target.cells[i]?

theorem stacked_rows (hlen : ps.length = s.rest.length) (hX : X.Rectangular)
    (h : stacked m ps settings s X = .ok A) :
    A.index = X.index ∧ A.Rectangular ∧ ∃ Ss ds,
      A.columns = (if settings.keepOriginal.isTrue then X.columns else []) ++ ds ∧
      List.Forall₂ (fun q S => (q.labels m X).outcome = .ok S) (zipParts ps s.rest) Ss ∧
      List.Forall₂ (Stacking.Coded (Stacking.stored m s)) (Ss.map (·.cells))
        (ds.map (·.cells)) := by
  obtain ⟨Ss, hSs, h⟩ := Except.exists_of_bind h
  have hlabels := forall₂_of_mapM hSs
  have hnames : (m.labelsOf s.rest).length = Ss.length := by
    rw [← hlabels.length_eq, Memory.labelsOf, List.length_map, zipParts, List.length_zipWith, hlen,
      min_self]
  obtain ⟨ds, hcolumns, hindex, hcoded⟩ := Stacking.exists_columns h
  rw [cells_besides hnames] at hcoded
  have hA : A.index = X.index := by
    rw [hindex]
    exact ite_self _
  refine ⟨hA, fun c hc => ?_, Ss, ds, hcolumns, hlabels, hcoded⟩
  have hrows : A.rows = X.rows := congrArg List.length hA
  rw [hcolumns, List.mem_append] at hc
  rw [hrows]
  rcases hc with hc | hc
  · split at hc
    · exact hX c hc
    · cases hc
  · have hlength : c.cells.length ∈ (Ss.map (·.cells)).map List.length := by
      rw [Stacking.Coded.lengths_eq hcoded]
      exact List.mem_map_of_mem (List.mem_map_of_mem hc)
    simp only [List.map_map, List.mem_map, Function.comp_apply] at hlength
    obtain ⟨S, hS, hlength⟩ := hlength
    obtain ⟨q, -, hq⟩ := exists_of_mem_mapM hSs hS
    rw [← hlength, length_of_labels hq]

theorem fitMembers_ok
    (h : Plan.fitMembers env ps settings s F target split w = (.ok (A, b), u)) :
    stacked u.memory ps settings s (F.takeRows split.test) = .ok A ∧
      b = target.takeRows split.test := by
  unfold Plan.fitMembers at h
  obtain ⟨codes, -, h⟩ := Work.ok_of_except h
  rw [Work.run_setLearned_bind] at h
  obtain ⟨_, v, -, h⟩ := Work.ok_of_bind h
  obtain ⟨A', v', hA, hv, h⟩ := stacked_of_run h
  cases h
  exact ⟨hv ▸ hA, rfl⟩

theorem rows_of_alignTarget (h : alignTarget (some y) F = .ok (some target)) :
    target.rows = F.rows := by
  have hcolumn := column_of_alignTarget h
  simp only [alignTarget, Series.align, checkLengths] at h
  split at h
  · next hrows =>
    unfold Series.rows
    rw [hcolumn, Series.length_dissolve, hrows]
    rfl
  · cases h

theorem stacksRows_of_fitMembers (hlen : ps.length = s.rest.length) (hF : F.Rectangular)
    (hheld : F.Picks split.test) (htarget : target.rows = F.rows)
    (h : Plan.fitMembers env ps settings s F target split w = (.ok (A, b), u)) :
    StacksRows u.memory (zipParts ps s.rest) (Stacking.stored u.memory s)
      settings.keepOriginal.isTrue F target split.test A b := by
  obtain ⟨hA, rfl⟩ := fitMembers_ok h
  obtain ⟨hindex, hrectangular, hcolumns⟩ :=
    stacked_rows hlen (hF.takeRows hheld) hA
  have hcells : ∀ i ∈ split.test, i < target.cells.length := fun i hi =>
    Nat.lt_of_lt_of_eq (hheld.bound i hi) htarget.symm
  refine ⟨?_, hrectangular, fun j i hj => ?_, hcolumns, length_pick_of_lt hcells, fun j i hj => ?_⟩
  · exact (congrArg List.length hindex).trans (Frame.rows_takeRows hheld)
  · rw [hindex]
    exact (getElem?_pick hheld.bound j).trans (by rw [hj]; rfl)
  · exact (getElem?_pick hcells j).trans (by rw [hj]; rfl)

/-- The members of a stack learn nothing of the rows held out from them. Without classes the rows
are divided by their number, and two sets of data that agree outside of the rows held out give the
members the same, so that in the end the members answer every frame alike. The stacker learns from
one row for every row held out, beside its target. -/
theorem held_out_unseen (env : Surroundings) (n : Node) (t : Plan) (ps : List Plan)
    (settings : StackSettings) (w : Workspace) (defaults : Settings) (F F' : Frame)
    (y y' target target' : Series) (split : Holdout) (hplan : n.plan = .stack t ps settings)
    (hplain : settings.stratify.isTrue = false) (hdefaults : env.settings = .ok defaults)
    (hsplit : settings.split defaults F.rows = .ok split) (hn : InUse w.memory n)
    (hlen : ps.length = n.site.rest.length) (hself : n.site.id ∉ Site.idsOf n.site.rest)
    (hapart : n.site.first.ids.Disjoint (Site.idsOf n.site.rest)) (hrectangular : F.Rectangular)
    (htarget : alignTarget (some y) F = .ok (some target))
    (htarget' : alignTarget (some y') F' = .ok (some target'))
    (hcodes : (Stacking.codes target).isOk = (Stacking.codes target').isOk)
    (hF : F.AgreeOutside split.test F') (hy : y.column.AgreeOutside split.test y'.column)
    (htyped : y.column.Typed) (htyped' : y'.column.Typed)
    (hsettled : Column.Settled split.train y.column y'.column) :
    let start : Workspace := { w with memory := w.memory.withInput n.site none, consulted := true }
    let run := n.fit env (.frame F) (.series y) w
    let run' := n.fit env (.frame F') (.series y') w
    split.Divides F.rows ∧ settings.split defaults F'.rows = .ok split ∧
    run = Plan.fitApart env t ps settings n.site F target split start ∧
    run' = Plan.fitApart env t ps settings n.site F' target' split start ∧
    F.takeRows split.train = F'.takeRows split.train ∧
    (∀ Z, alignTarget (some (target.takeRows split.train)) Z =
      alignTarget (some (target'.takeRows split.train)) Z) ∧
    (∀ child ∈ n.children, ∀ Z, child.labels run.2.memory Z = child.labels run'.2.memory Z ∧
      child.transform run.2.memory (.frame Z) = child.transform run'.2.memory (.frame Z)) ∧
    ∀ A b u, Plan.fitMembers env ps settings n.site F target split start = (.ok (A, b), u) →
      StacksRows u.memory n.children (Stacking.stored u.memory n.site) settings.keepOriginal.isTrue
        F target split.test A b := by
  obtain ⟨p, s⟩ := n
  dsimp only at hplan
  subst hplan
  intro start run run'
  have hdivides : split.Divides F.rows := Holdout.split_divides hsplit
  have hdisjoint : ∀ i ∈ split.train, i ∉ split.test := fun _ hi => hdivides.disjoint hi
  have hsplit' : settings.split defaults F'.rows = .ok split := by rw [← hF.rows, hsplit]
  have hrun : run = Plan.fitApart env t ps settings s F target split start :=
    Plan.fit_stack hplain hdefaults hsplit htarget w
  have hrun' : run' = Plan.fitApart env t ps settings s F' target' split start :=
    Plan.fit_stack hplain hdefaults hsplit' htarget' w
  have hX : F.takeRows split.train = F'.takeRows split.train := hF.takeRows_eq hdisjoint
  have hslice := alignTarget_slice htarget htarget' (hy.agreeAt hdisjoint) htyped htyped' hsettled
  have hstart : ∀ i ∈ s.ids, i < start.memory.next := hn.extend (w.memory.extends_withInput s none)
  have hmirrors : Memory.Mirrors id (Site.idsOf s.rest) run.2.memory run'.2.memory := by
    rw [hrun, hrun']
    exact Plan.fitApart_mirrors hstart hself hapart hX hslice hcodes
  refine ⟨hdivides, hsplit', hrun, hrun', hX, hslice, fun child hchild Z => ?_, fun A b u h => ?_⟩
  · have hsame : run.2.memory.Renamed id child.site.ids run'.2.memory :=
      hmirrors.renamed.mono fun _ hi => ids_of_mem_zipParts hchild hi
    rw [transform_frame, transform_frame]
    exact ⟨Plan.labels_same child.plan Z hsame, Plan.transform_same child.plan Z hsame⟩
  · exact stacksRows_of_fitMembers hlen hrectangular ⟨hdivides.test, hdivides.test_lt⟩
      (rows_of_alignTarget htarget) h

/-! Two rows, one for the members and one for the stacker. -/

def duetSettings : StackSettings := ⟨.null, .bool false, .bool false, .null⟩

/-- A stack of two members; the stacker can be one of them. -/
def duet (stacker : Nat) : Node :=
  ⟨.stack parrot.plan [parrot.plan, parrot.plan] duetSettings,
    .mk 3 [.mk stacker [], .mk 0 [], .mk 1 []]⟩

theorem duet_self (stacker : Nat) :
    (duet stacker).site.id ∉ Site.idsOf (duet stacker).site.rest := by
  change 3 ∉ [0, 1]
  decide

theorem duet_apart : (duet 2).site.first.ids.Disjoint (Site.idsOf (duet 2).site.rest) := by
  change [2].Disjoint [0, 1]
  simp

def duetSpace : Workspace :=
  ⟨⟨#[.fresh (.text "x"), .fresh (.text "z"), .fresh (.text "top"), .fresh (.text "stack")]⟩, [],
    false⟩

/-- Features under the names of the members. -/
def duetFrame : Frame :=
  ⟨rangeIndex 2, [⟨.text "x", .int64, [.int 1, .int 2]⟩, ⟨.text "z", .int64, [.int 3, .int 4]⟩]⟩

/-- A target that has some value in the rows held out and another one in those that are not. -/
def marks (kind : Dtype) (seen unseen : Value) (held : List Nat) : Series :=
  ⟨⟨.text "mark", kind, (List.range 2).map fun i => if i ∈ held then unseen else seen⟩,
    rangeIndex 2⟩

theorem marks_agreeOutside (kind : Dtype) (seen unseen unseen' : Value) (held : List Nat) :
    (marks kind seen unseen held).column.AgreeOutside held
      (marks kind seen unseen' held).column := by
  refine ⟨rfl, rfl, by simp [marks], fun i hi => ?_⟩
  simp only [marks, List.getElem?_map]
  cases hrange : (List.range 2)[i]? with
  | none => rfl
  | some j =>
    obtain ⟨hlt, rfl⟩ := List.getElem?_eq_some_iff.1 hrange
    rw [List.getElem_range, Option.map_some, Option.map_some, if_neg hi, if_neg hi]

theorem duet_split : ∃ split, duetSettings.split .standard duetFrame.rows = .ok split := by
  have hup : Holdout.roundUp (0.3 * Float.ofNat 2) = 1 := by decide +kernel
  have hcount : Holdout.testCount (.float 0.3) 2 = .ok 1 := by
    simp only [Holdout.testCount, hup]
    rfl
  exact Holdout.exists_split (by decide +kernel) (by decide +kernel) hcount

def duetAligned (y : Series) : Series := ⟨Series.dissolve y.column, rangeIndex 2⟩

def duetSurroundings : Surroundings := ⟨.ok .standard, .builtin⟩

def duetStart (stacker : Nat) : Workspace :=
  { duetSpace with
    memory := duetSpace.memory.withInput (duet stacker).site none, consulted := true }

/-- The fit of a duet for a split. -/
def duetApart (stacker : Nat) (y : Series) (split : Holdout) : Except Failure Unit × Workspace :=
  Plan.fitApart duetSurroundings parrot.plan [parrot.plan, parrot.plan] duetSettings
    (duet stacker).site duetFrame (duetAligned y) split (duetStart stacker)

/-- What the first member is seen to answer, if it answers: a kind and texts. -/
def firstAnswer (w : Workspace) : Option (String × List String) :=
  ((⟨parrot.plan, .mk 0 []⟩ : Node).labels w.memory duetFrame).outcome.toOption.map fun S =>
    (S.column.dtype.name, S.cells.map Value.plain)

theorem duet_aligned (kind : Dtype) (seen unseen : Value) (held : List Nat) :
    alignTarget (some (marks kind seen unseen held)) duetFrame =
      .ok (some (duetAligned (marks kind seen unseen held))) := rfl

theorem fit_duet {split : Holdout}
    (hsplit : duetSettings.split .standard duetFrame.rows = .ok split) (stacker : Nat)
    (kind : Dtype) (seen unseen : Value) :
    (duet stacker).fit duetSurroundings (.frame duetFrame)
        (.series (marks kind seen unseen split.test)) duetSpace =
      duetApart stacker (marks kind seen unseen split.test) split := by
  have hplain : duetSettings.stratify.isTrue = false := rfl
  have hdefaults : duetSurroundings.settings = .ok .standard := rfl
  rw [fit_eq (F := duetFrame) rfl rfl]
  exact Plan.fit_stack hplain hdefaults hsplit (duet_aligned kind seen unseen split.test) duetSpace

theorem held_out_unseen_duet :
    ∃ split, duetSettings.split .standard duetFrame.rows = .ok split ∧ split.Divides 2 ∧
      let y := marks .text (.text "a") (.text "b") split.test
      let y' := marks .text (.text "a") (.text "c") split.test
      let run := (duet 2).fit duetSurroundings (.frame duetFrame) (.series y) duetSpace
      let run' := (duet 2).fit duetSurroundings (.frame duetFrame) (.series y') duetSpace
      firstAnswer run.2 = some ("str", ["a", "a"]) ∧
      (∀ child ∈ (duet 2).children, ∀ Z,
        child.labels run.2.memory Z = child.labels run'.2.memory Z ∧
          child.transform run.2.memory (.frame Z) = child.transform run'.2.memory (.frame Z)) ∧
      ∃ A b m, StacksRows m (duet 2).children (Stacking.stored m (duet 2).site) false duetFrame
        (duetAligned y) split.test A b := by
  obtain ⟨split, hsplit⟩ := duet_split
  have htwo := (Holdout.split_divides hsplit).two
  have hcodes : ∀ v ∈ [Value.text "b", .text "c"],
      (Stacking.codes (duetAligned (marks .text (.text "a") v split.test))).isOk = true := by
    rcases htwo with rfl | rfl <;> decide +kernel
  have hcolumn : ∀ c, Column.AgreeOutside split.test c c := fun c => ⟨rfl, rfl, rfl, fun _ _ => rfl⟩
  obtain ⟨hdivides, -, -, -, -, -, hmembers, hstacker⟩ := held_out_unseen duetSurroundings (duet 2)
    parrot.plan [parrot.plan, parrot.plan] duetSettings duetSpace .standard duetFrame
    duetFrame _ _ _ _ split rfl rfl rfl hsplit (by decide) rfl (duet_self 2) duet_apart
    (by decide) (duet_aligned .text (.text "a") (.text "b") split.test)
    (duet_aligned .text (.text "a") (.text "c") split.test)
    ((hcodes _ (by simp)).trans (hcodes _ (by simp)).symm)
    ⟨rfl, fun _ _ => rfl, .cons (hcolumn _) (.cons (hcolumn _) .nil)⟩
    (marks_agreeOutside _ _ _ _ _) (by rcases htwo with rfl | rfl <;> decide)
    (by rcases htwo with rfl | rfl <;> decide) ⟨nofun, nofun⟩
  refine ⟨split, hsplit, hdivides, ?_, hmembers, ?_⟩
  · rw [fit_duet hsplit]
    rcases htwo with rfl | rfl <;> decide +kernel
  · have hok : (Plan.fitMembers duetSurroundings [parrot.plan, parrot.plan] duetSettings
        (duet 2).site duetFrame (duetAligned (marks .text (.text "a") (.text "b") split.test)) split
        (duetStart 2)).1.isOk = true := by
      rcases htwo with rfl | rfl <;> decide +kernel
    rcases hrun : Plan.fitMembers duetSurroundings [parrot.plan, parrot.plan] duetSettings
        (duet 2).site duetFrame (duetAligned (marks .text (.text "a") (.text "b") split.test)) split
        (duetStart 2) with ⟨_ | ⟨A, b⟩, u⟩ <;> rw [hrun] at hok
    · cases hok
    · exact ⟨A, b, u.memory, hstacker A b u hrun⟩

/-- The members of a stack learn nothing of the rows held out, if the stack, the split and two
targets, before and after they are aligned, have some property. -/
def MembersBlind (P : Site → Holdout → Series → Series → Series → Series → Prop) : Prop :=
  ∀ (env : Surroundings) (n : Node) (t : Plan) (ps : List Plan) (settings : StackSettings)
    (w : Workspace) (defaults : Settings) (F : Frame) (y y' target target' : Series)
    (split : Holdout), n.plan = .stack t ps settings → settings.stratify.isTrue = false →
    env.settings = .ok defaults → settings.split defaults F.rows = .ok split →
    InUse w.memory n → ps.length = n.site.rest.length → n.site.id ∉ Site.idsOf n.site.rest →
    F.Rectangular → alignTarget (some y) F = .ok (some target) →
    alignTarget (some y') F = .ok (some target') → y.column.AgreeOutside split.test y'.column →
    y.column.Typed → y'.column.Typed → P n.site split y y' target target' →
    ∀ child ∈ n.children, ∀ Z,
      child.labels (n.fit env (.frame F) (.series y) w).2.memory Z =
        child.labels (n.fit env (.frame F) (.series y') w).2.memory Z

theorem not_membersBlind {P : Site → Holdout → Series → Series → Series → Series → Prop}
    (stacker : Nat) (kind : Dtype) (seen unseen unseen' : Value)
    (hn : InUse duetSpace.memory (duet stacker))
    (h : ∀ split, split = ⟨[0], [1]⟩ ∨ split = ⟨[1], [0]⟩ →
      let y := marks kind seen unseen split.test
      let y' := marks kind seen unseen' split.test
      y.column.Typed ∧ y'.column.Typed ∧
        P (duet stacker).site split y y' (duetAligned y) (duetAligned y') ∧
        firstAnswer (duetApart stacker y split).2 ≠ firstAnswer (duetApart stacker y' split).2) :
    ¬ MembersBlind P := by
  intro hblind
  obtain ⟨split, hsplit⟩ := duet_split
  obtain ⟨htyped, htyped', hP, hdiffer⟩ := h split (Holdout.split_divides hsplit).two
  have hsame := hblind duetSurroundings (duet stacker) parrot.plan [parrot.plan, parrot.plan]
    duetSettings duetSpace .standard duetFrame _ _ _ _ split rfl rfl rfl hsplit hn rfl
    (duet_self stacker) (by decide) (duet_aligned kind seen unseen split.test)
    (duet_aligned kind seen unseen' split.test)
    (marks_agreeOutside kind seen unseen unseen' _) htyped htyped' hP ⟨parrot.plan, .mk 0 []⟩
    List.mem_cons_self duetFrame
  rw [fit_duet hsplit, fit_duet hsplit] at hsame
  refine hdiffer ?_
  unfold firstAnswer
  rw [hsame]

/-- None of the conditions can be left out. A stacker that is a member itself is fitted on the rows
held out. Where a whole number is missing among the categories held out, the members learn binary
numbers. And a target with a list among its labels is refused before any member is fitted. -/
theorem held_out_seen :
    ¬ MembersBlind (fun _ split y y' target target' =>
        Column.Settled split.train y.column y'.column ∧
          (Stacking.codes target).isOk = (Stacking.codes target').isOk) ∧
      ¬ MembersBlind (fun s _ _ _ target target' => s.first.ids.Disjoint (Site.idsOf s.rest) ∧
        (Stacking.codes target).isOk = (Stacking.codes target').isOk) ∧
      ¬ MembersBlind fun s split y y' _ _ => s.first.ids.Disjoint (Site.idsOf s.rest) ∧
        Column.Settled split.train y.column y'.column := by
  have hn : InUse duetSpace.memory (duet 0) := by decide
  have hn' : InUse duetSpace.memory (duet 2) := by decide
  refine ⟨not_membersBlind 0 .text (.text "a") (.text "b") (.text "c") hn fun split hsplit => ?_,
    not_membersBlind 2 (.category .int64 [.int 1, .int 2]) (.int 1) (.int 2) (.scalar .absent) hn'
      fun split hsplit => ?_,
    not_membersBlind 2 .object (.text "a") (.text "b") (.list []) hn' fun split hsplit => ?_⟩
  · rcases hsplit with rfl | rfl
    · exact ⟨by decide, by decide, ⟨⟨nofun, nofun⟩, by decide +kernel⟩, by decide +kernel⟩
    · exact ⟨by decide, by decide, ⟨⟨nofun, nofun⟩, by decide +kernel⟩, by decide +kernel⟩
  · rcases hsplit with rfl | rfl
    · exact ⟨by decide, by decide, ⟨duet_apart, by decide +kernel⟩, by decide +kernel⟩
    · exact ⟨by decide, by decide, ⟨duet_apart, by decide +kernel⟩, by decide +kernel⟩
  · rcases hsplit with rfl | rfl
    · exact ⟨by decide, by decide,
        ⟨duet_apart, nofun, fun _ => .inr ⟨.text "a", List.mem_cons_self, rfl⟩⟩, by decide +kernel⟩
    · exact ⟨by decide, by decide,
        ⟨duet_apart, nofun, fun _ => .inr ⟨.text "a", List.mem_cons_self, rfl⟩⟩, by decide +kernel⟩

end Node
end ColumnFlow
