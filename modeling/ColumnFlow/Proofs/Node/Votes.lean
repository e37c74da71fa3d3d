import ColumnFlow.Proofs.Frame.Plurality
import ColumnFlow.Proofs.Node.Grouping
import ColumnFlow.Proofs.Node.Reaching
import ColumnFlow.Proofs.Node.Settling
import Mathlib

/-!
# Ensembles that vote

A vote and a bagging ensemble for classes put the labels of their members side by side, one ballot
of each member, and answer with the label that prevails in every row. After a fit they ask for no
other columns than the member that was fitted last, so they refuse no frame that all members answer.
-/
namespace ColumnFlow

open Majority (Elects)

variable {k : LabelKind} {m : Memory} {n q : Node} {nodes before after : List Node} {Z C : Frame}
  {S : Series} {env : Surroundings} {w v : Workspace} {X : Frame} {y : Option Series}

namespace Node

/-- Ensembles in which the majority of some members decides. -/
inductive Polls : Node → List Node → Prop
  | vote {s : Site} {nodes : List Node} :
      s.parts = sites nodes → Polls ⟨.vote (plans nodes), s⟩ nodes
  | bagging {s : Site} {t : Plan} {settings : BaggingSettings} :
      settings.task = .classification → Polls ⟨.bagging t settings, s⟩ (s.rest.map (Node.mk t))

/-- What a node predicts for the rows of a frame, if it is one label of a kind for every row. -/
def Casts (m : Memory) (k : LabelKind) (Z : Frame) (q : Node) (ballot : List k.Item) : Prop :=
  ∃ S, (q.labels m Z).outcome = .ok S ∧ S.cells = ballot.map k.value

/-- A single column over the rows of a frame, with the labels that prevail in them. -/
def Announces (k : LabelKind) (ballots : List (List k.Item)) (name : Label) (Z F : Frame) : Prop :=
  ∃ c winners, F = ⟨Z.index, [c]⟩ ∧ c.label = name ∧ c.cells = winners.map k.value ∧
    winners.length = Z.rows ∧ Elects ballots winners

/-! Labels of one node. -/

theorem guarded_of_labels (h : (q.labels m Z).outcome = .ok S) :
    q.isFitted m = true ∧ m.lacking q.site Z = [] := by
  by_cases hl : ∃ l, q.plan = .learner l
  · obtain ⟨l, hl⟩ := hl
    obtain ⟨p, s⟩ := q
    obtain rfl : p = .learner l := hl
    obtain ⟨hfitted, hlacking, -⟩ := guarded_of_ok h
    exact ⟨hfitted, hlacking⟩
  · rw [labels_of_reply fun l hnot => hl ⟨l, hnot⟩] at h
    obtain ⟨C, hC, -⟩ := Except.exists_of_bind h
    obtain ⟨body, hbody⟩ := exists_guarded m q.plan q.site
    unfold reply at hC
    rw [hbody] at hC
    obtain ⟨hfitted, hlacking, -⟩ := guarded_of_ok hC
    exact ⟨hfitted, hlacking⟩

theorem length_of_labels (h : (q.labels m Z).outcome = .ok S) : S.cells.length = Z.rows := by
  by_cases hl : ∃ l, q.plan = .learner l
  · obtain ⟨l, hl⟩ := hl
    obtain ⟨p, s⟩ := q
    obtain rfl : p = .learner l := hl
    obtain ⟨-, -, h⟩ := guarded_of_ok h
    unfold Memory.predictions at h
    obtain ⟨model, -, h⟩ := Logged.exists_of_bind h
    obtain ⟨features, -, h⟩ := Logged.exists_of_bind h
    obtain ⟨c, -, h⟩ := Logged.exists_of_bind h
    unfold Series.over at h
    split at h
    next hlength =>
      rw [← Except.ok.inj h]
      exact (Series.length_dissolve _).trans hlength
    next => cases h
  · rw [labels_of_reply fun l hnot => hl ⟨l, hnot⟩] at h
    obtain ⟨C, -, h⟩ := Except.exists_of_bind h
    unfold Memory.singleColumn at h
    split at h
    · split at h
      next hlength =>
        rw [← Except.ok.inj h]
        exact hlength
      next => cases h
    · cases h

/-! What the ensembles make of the labels. -/

namespace Polls

theorem isFitted_eq (hn : n.Polls nodes) :
    n.isFitted m = (m.hasInput n.site && nodes.all (·.isFitted m)) := by
  cases hn with
  | vote hparts =>
    unfold isFitted
    rw [Plan.isFitted, hparts, allFitted_eq_all, List.all_map]
    rfl
  | bagging htask =>
    unfold isFitted
    rw [Plan.isFitted, List.all_map]
    rfl

/-- An ensemble that is not held up has its members cast their ballots and counts them. -/
theorem reply_eq (hn : n.Polls nodes) (hfitted : n.isFitted m = true)
    (hlacking : m.lacking n.site Z = []) :
    n.reply m Z = nodes.mapM (fun q => (q.labels m Z).outcome) >>= fun Ss =>
      Majority.ofFrame (Memory.besides (nodes.map (·.label m)) Ss Z) >>= fun W =>
        .ok (m.output n.site W Z) := by
  unfold isFitted at hfitted
  unfold reply
  cases hn with
  | vote hparts =>
    dsimp only at hfitted hlacking ⊢
    rw [Plan.transform, hfitted]
    unfold Memory.guarded
    rw [hlacking]
    simp only [Bool.not_true, Bool.false_eq_true, if_false]
    rw [Logged.outcome_bind, Plan.labelsOfAll_outcome, hparts, Directory.zipParts_nodes]
    refine bind_congr fun Ss => ?_
    have hnames : m.labelsOf (sites nodes) = nodes.map (·.label m) := List.map_map
    rw [Logged.outcome_lift_bind, hnames]
    rfl
  | bagging htask =>
    dsimp only at hfitted hlacking ⊢
    rw [Plan.transform, hfitted]
    unfold Memory.guarded
    rw [hlacking]
    simp only [Bool.not_true, Bool.false_eq_true, if_false, htask]
    rw [Logged.outcome_bind, Plan.labelsOfEach_outcome]
    refine bind_congr fun Ss => ?_
    rw [Logged.outcome_lift_bind, List.map_map]
    rfl

end Polls

theorem cells_besides {names : List Label} {Ss : List Series} (h : names.length = Ss.length)
    (Z : Frame) : (Memory.besides names Ss Z).columns.map (·.cells) = Ss.map (·.cells) := by
  unfold Memory.besides
  rw [Frame.cells_relabel (by rw [Labels.length_makeUnique, h, List.length_map]), List.map_map]
  rfl

theorem exists_labels {ballots : List (List k.Item)}
    (h : List.Forall₂ (Casts m k Z) nodes ballots) :
    ∃ Ss, nodes.mapM (fun q => (q.labels m Z).outcome) = .ok Ss ∧
      Ss.map (·.cells) = ballots.map (List.map k.value) ∧ ∀ b ∈ ballots, b.length = Z.rows := by
  induction h with
  | nil => exact ⟨[], rfl, rfl, by simp⟩
  | @cons q ballot nodes ballots hq _ ih =>
    obtain ⟨S, hS, hcells⟩ := hq
    obtain ⟨Ss, hSs, hall, hlength⟩ := ih
    refine ⟨S :: Ss, ?_, ?_, ?_⟩
    · rw [List.mapM_cons, hS, hSs]
      rfl
    · rw [List.map_cons, List.map_cons, hcells, hall]
    · rw [List.forall_mem_cons]
      refine ⟨?_, hlength⟩
      rw [← length_of_labels hS, hcells, List.length_map]

namespace Polls

/-- When all members cast their ballots, the labels that prevail are announced. -/
theorem announces (hn : n.Polls nodes) (hne : nodes ≠ []) (hfitted : n.isFitted m = true)
    (hlacking : m.lacking n.site Z = []) {ballots : List (List k.Item)}
    (h : List.Forall₂ (Casts m k Z) nodes ballots) :
    ∃ F, (n.transform m (.frame Z)).outcome = .ok F ∧ Announces k ballots (n.label m) Z F := by
  obtain ⟨Ss, hSs, hcells, hlength⟩ := exists_labels h
  have hcount : (nodes.map (·.label m)).length = Ss.length := by
    rw [List.length_map, (forall₂_of_mapM hSs).length_eq]
  have hballots : ballots ≠ [] := by
    rintro rfl
    exact hne (List.forall₂_nil_right_iff.1 h)
  obtain ⟨winners, hwinners, hrows, helects⟩ :=
    Majority.ofFrame_ballots hballots ((cells_besides hcount Z).trans hcells) hlength
  have hplain := Column.dtype_infer (winners.map k.value) .null
  have hcolumn := LabelKind.cells_dissolve
    (c := (Column.infer .null (winners.map k.value)).rename (n.label m))
    (LabelKind.cells_infer winners .null) hplain
  refine ⟨_, ?_, _, winners, rfl, Series.label_dissolve _, hcolumn, hrows, helects⟩
  rw [transform_frame]
  change n.reply m Z = _
  rw [hn.reply_eq hfitted hlacking, hSs, Except.bind_ok, hwinners]
  rfl

/-- A member that is no learner must answer with a single column. -/
theorem refuses (hn : n.Polls (before ++ q :: after)) (hfitted : n.isFitted m = true)
    (hbefore : ∀ p ∈ before, ∃ S, (p.labels m Z).outcome = .ok S)
    (hq : ∀ l, q.plan ≠ .learner l) (hC : q.reply m Z = .ok C) (hcount : C.columns.length ≠ 1) :
    ∃ e, (n.transform m (.frame Z)).outcome = .error (.mismatch e) ∧
      (m.lacking n.site Z = [] → e = .columnCount (q.label m) C.labels) := by
  have hreply : (n.transform m (.frame Z)).outcome = n.reply m Z := by
    rw [transform_frame]
    rfl
  rw [hreply]
  cases hlacking : m.lacking n.site Z with
  | nil =>
    have hlabels : (q.labels m Z).outcome =
        .error (.mismatch (.columnCount (q.label m) C.labels)) := by
      rw [labels_of_reply hq, hC, Except.bind_ok]
      unfold Memory.singleColumn
      split
      next hcolumns => exact absurd (congrArg List.length hcolumns) hcount
      next => rfl
    refine ⟨_, ?_, fun _ => rfl⟩
    rw [hn.reply_eq hfitted hlacking, mapM_error hbefore hlabels]
    rfl
  | cons l missing =>
    obtain ⟨body, hbody⟩ := exists_guarded m n.plan n.site
    unfold isFitted at hfitted
    unfold reply
    rw [hbody, hfitted]
    unfold Memory.guarded
    rw [hlacking]
    exact ⟨_, rfl, fun h => by cases h⟩

end Polls

/-! What an ensemble asks for after a fit. -/

theorem inputColumns_remembered {r s : Site} {columns : List Label} (hs : s.id < m.next)
    (h : m.inputColumns r = some columns) :
    (m.withInput s (some columns)).inputColumns r = some columns := by
  by_cases hr : r.id = s.id
  · unfold Memory.inputColumns
    rw [hr, Memory.slot_withInput_self hs]
  · unfold Memory.inputColumns
    rw [Memory.slot_withInput_of_ne hr]
    exact h

/-- The member that was fitted last has kept the columns, whatever rows it was given. -/
theorem exists_columns_drawn {t : Plan} {ss : List Site} {target : Series} {size : Nat}
    {source last : Draw.Twister} (h : ∀ i ∈ Site.idsOf ss, i < w.memory.next) (hne : ss ≠ [])
    (hfit : Plan.fitDrawn env t X target size source ss w = (.ok last, v)) :
    ∃ r ∈ ss, v.memory.inputColumns r = some X.labels := by
  induction ss generalizing source w with
  | nil => exact absurd rfl hne
  | cons s ss ih =>
    change ∀ i ∈ s.ids ++ Site.idsOf ss, i < w.memory.next at h
    have hfirst : ∀ i ∈ s.ids, i < w.memory.next := fun i hi => h i (List.mem_append_left _ hi)
    unfold Plan.fitDrawn at hfit
    rw [List.foldlM_cons] at hfit
    obtain ⟨next, u, hu, hv⟩ := Work.ok_of_bind hfit
    change Plan.fitDrawn env t X target size next ss u = (.ok last, v) at hv
    generalize Draw.Twister.sample X.rows size source = drawn at hu
    obtain ⟨_, u', hu', hu⟩ := Work.ok_of_bind hu
    obtain rfl : u' = u := congrArg Prod.snd hu
    by_cases hrest : ss = []
    · subst hrest
      obtain rfl : u' = v := congrArg Prod.snd hv
      have hcolumns := inputColumns_fit (n := ⟨t, s⟩) hfirst hu'
      rw [Frame.labels_takeRows] at hcolumns
      exact ⟨s, List.mem_cons_self, hcolumns⟩
    · have hextend := Plan.fit_extends env t (X.takeRows drawn.1) (some (target.takeRows drawn.1))
        hfirst
      rw [hu'] at hextend
      obtain ⟨r, hr, hcolumns⟩ := ih (fun i hi =>
        Nat.lt_of_lt_of_le (h i (List.mem_append_right _ hi)) hextend.next_le) hrest hv
      exact ⟨r, List.mem_cons_of_mem _ hr, hcolumns⟩

namespace Polls

theorem exists_columns (hn : n.Polls nodes) (hne : nodes ≠ [])
    (hids : ∀ i ∈ n.site.ids, i < w.memory.next)
    (hfit : n.plan.fit env n.site X y w = (.ok (), v)) :
    ∃ q ∈ nodes, v.memory.inputColumns q.site = some X.labels := by
  cases hn with
  | @vote s nodes hparts =>
    dsimp only at hids hfit
    rw [Plan.fit] at hfit
    obtain ⟨y', u, hbody, hv⟩ := Work.ok_of_fitting hfit
    generalize hw₁ : ({ w with memory := w.memory.withInput s none } : Workspace) = w₁ at hbody
    have hstart : ∀ i ∈ s.ids, i < w₁.memory.next := fun i hi => by
      rw [← hw₁, Memory.withInput, Memory.next_update]
      exact hids i hi
    have hmembers : ∀ i ∈ Site.idsOf (sites nodes), i < w₁.memory.next := fun i hi =>
      hstart i (Site.mem_ids_of_mem_idsOf_parts (hparts ▸ hi))
    rw [hparts] at hbody
    change fitEach env nodes X y' w₁ = (.ok (), u) at hbody
    obtain ⟨q, hq, hcolumns⟩ := Node.exists_columns hmembers hne hbody
    have hextend := fitEach_extends env X y' hmembers
    rw [hbody] at hextend
    have hself := Nat.lt_of_lt_of_le (hstart s.id s.id_mem_ids) hextend.next_le
    exact ⟨q, hq, hv ▸ inputColumns_remembered hself hcolumns⟩
  | @bagging s t settings htask =>
    dsimp only at hids hfit
    rw [Plan.fit_bagging] at hfit
    obtain ⟨y', u, hbody, hv⟩ := Work.ok_of_fitting hfit
    obtain ⟨target, hrest⟩ := Work.ok_of_requireTarget hbody
    obtain ⟨asked, w₁, hw₁, hrest₁⟩ := Work.ok_of_steady (Plan.steady_seedValue env settings) hrest
    obtain ⟨source, -, hrest₂⟩ := Work.ok_of_except hrest₁
    obtain ⟨last, u', hdrawn, hlast⟩ := Work.ok_of_bind hrest₂
    obtain rfl : u' = u := congrArg Prod.snd hlast
    have hstart : ∀ i ∈ s.ids, i < w₁.memory.next := fun i hi => by
      rw [hw₁, Memory.withInput, Memory.next_update]
      exact hids i hi
    have hmembers : ∀ i ∈ Site.idsOf s.rest, i < w₁.memory.next := fun i hi =>
      hstart i (Site.mem_ids_of_mem_idsOf_rest hi)
    have hsome : s.rest ≠ [] := fun hnil => hne (by rw [hnil]; rfl)
    obtain ⟨r, hr, hcolumns⟩ := exists_columns_drawn hmembers hsome hdrawn
    have hextend := Plan.fitDrawn_extends hmembers hdrawn
    have hself := Nat.lt_of_lt_of_le (hstart s.id s.id_mem_ids) hextend.next_le
    exact ⟨⟨t, r⟩, List.mem_map_of_mem hr, hv ▸ inputColumns_remembered hself hcolumns⟩

/-- After a fit, no frame is refused that all members have labels for. -/
theorem ready (hn : n.Polls nodes) (hne : nodes ≠ [])
    (hids : ∀ i ∈ n.site.ids, i < w.memory.next)
    (hfit : n.plan.fit env n.site X y w = (.ok (), v))
    (h : ∀ q ∈ nodes, ∃ S, (q.labels v.memory Z).outcome = .ok S) :
    n.isFitted v.memory = true ∧ v.memory.lacking n.site Z = [] := by
  have hinput := inputColumns_fit hids hfit
  constructor
  · rw [hn.isFitted_eq, hasInput_of_eq hinput, Bool.true_and, List.all_eq_true]
    intro q hq
    obtain ⟨S, hS⟩ := h q hq
    exact (guarded_of_labels hS).1
  · obtain ⟨q, hq, hcolumns⟩ := hn.exists_columns hne hids hfit
    obtain ⟨S, hS⟩ := h q hq
    obtain ⟨-, hlacking⟩ := guarded_of_labels hS
    unfold Memory.lacking at hlacking ⊢
    rwa [hinput, ← hcolumns]

end Polls

/-! Three members to look at. Two have one name, and no label has two votes in the first row. -/

namespace Tied

def model (cells : List String) : Model := ⟨fun _ => return ⟨.null, .text, cells.map .text⟩, none⟩

/-- A learner that answers every frame with the same labels. -/
def member (cells : List String) : Plan :=
  .learner ⟨"Fixed", [], .labels, "classification", fun _ _ => return some (model cells)⟩

def ballots : List (List String) := [["p", "q"], ["q", "q"], ["r", "p"]]

def sure : Node := ⟨member ["p", "q"], .mk 0 []⟩

def members : List Node := [sure, ⟨member ["q", "q"], .mk 1 []⟩, ⟨member ["r", "p"], .mk 2 []⟩]

def vote : Node := ⟨.vote (plans members), .mk 3 (sites members)⟩

/-- Nodes with the identities of the members, all made from one template. -/
def copies : List Node := (sites members).map (Node.mk (member []))

def bagging : Node :=
  ⟨.bagging (member []) ⟨3, .null, .classification, .null⟩, .mk 3 (.mk 4 [] :: sites members)⟩

/-- Both rows have one label. -/
def frame : Frame := ⟨[.int 0, .int 0], [⟨.text "x", .int64, [.int 1, .int 2]⟩]⟩

def target : Series := ⟨⟨.text "y", .text, [.text "p", .text "q"]⟩, [.int 0, .int 0]⟩

def start : Workspace :=
  ⟨⟨#[.fresh (.text "a"), .fresh (.text "a"), .fresh (.text "b"), .fresh (.text "e"),
    .fresh (.text "t")]⟩, [], false⟩

def surroundings : Surroundings := ⟨.error (.unusable .value), .builtin⟩

def memory : Memory :=
  ⟨#[⟨.text "a", some [.text "x"], .model (model ["p", "q"])⟩,
    ⟨.text "a", some [.text "x"], .model (model ["q", "q"])⟩,
    ⟨.text "b", some [.text "x"], .model (model ["r", "p"])⟩,
    ⟨.text "e", some [.text "x"], .nothing⟩, .fresh (.text "t")]⟩

theorem fit_vote : vote.fit surroundings (.frame frame) (.series target) start =
    (.ok (), ⟨memory, [], false⟩) := by
  cbv

theorem casts_members : List.Forall₂ (Casts memory .text frame) members ballots :=
  .cons ⟨_, by cbv, by cbv⟩ (.cons ⟨_, by cbv, by cbv⟩ (.cons ⟨_, by cbv, by cbv⟩ .nil))

theorem casts_copies : List.Forall₂ (Casts memory .text frame) copies ballots :=
  .cons ⟨_, by cbv, by cbv⟩ (.cons ⟨_, by cbv, by cbv⟩ (.cons ⟨_, by cbv, by cbv⟩ .nil))

/-- Leaves a frame as it is, so that it has one column for each column of the frame. -/
def unsure : Node := ⟨.element .identity, .mk 1 []⟩

def sureAndUnsure : List Node := [sure, unsure]

def unsureVote : Node := ⟨.vote (plans sureAndUnsure), .mk 3 (sites sureAndUnsure)⟩

def twoColumns : Frame := ⟨frame.index, frame.columns ++ [⟨.text "z", .int64, [.int 3, .int 4]⟩]⟩

end Tied

/-- A vote, and a bagging ensemble for classes, decide every row by the most votes, and ties by the
order of the members. After a fit the ensemble answers every frame for which each member has one
label of a kind for every row, and it does so in any memory where it is fitted and lacks none of its
columns: with a single column under its own name, over the row labels of the frame. A member that
answers with any other number of columns, and is no learner, is a mismatch. Members may be of any
kind, and have the same name. -/
theorem members_decide :
    (∀ (env : Surroundings) (w : Workspace) (n : Node) (nodes : List Node), n.Polls nodes →
      nodes ≠ [] → (∀ i ∈ n.site.ids, i < w.memory.next) →
      ∀ X y : Data, (n.fit env X y w).1 = .ok () →
        ∀ (k : LabelKind) (Z : Frame) (ballots : List (List k.Item)),
          List.Forall₂ (Casts (n.fit env X y w).2.memory k Z) nodes ballots →
            ∃ F, (n.transform (n.fit env X y w).2.memory (.frame Z)).outcome = .ok F ∧
              Announces k ballots (n.label (n.fit env X y w).2.memory) Z F) ∧
    (∀ (m : Memory) (n : Node) (nodes : List Node), n.Polls nodes → nodes ≠ [] →
      n.isFitted m = true → ∀ (k : LabelKind) (Z : Frame) (ballots : List (List k.Item)),
        m.lacking n.site Z = [] → List.Forall₂ (Casts m k Z) nodes ballots →
          ∃ F, (n.transform m (.frame Z)).outcome = .ok F ∧
            Announces k ballots (n.label m) Z F) ∧
    ∀ (m : Memory) (n q : Node) (before after : List Node), n.Polls (before ++ q :: after) →
      n.isFitted m = true → ∀ Z C : Frame,
        (∀ p ∈ before, ∃ S, (p.labels m Z).outcome = .ok S) → (∀ l, q.plan ≠ .learner l) →
        (q.transform m (.frame Z)).outcome = .ok C → C.columns.length ≠ 1 →
          ∃ e, (n.transform m (.frame Z)).outcome = .error e ∧ e.kind = "ShapeMismatchError" ∧
            (m.lacking n.site Z = [] → e = .mismatch (.columnCount (q.label m) C.labels)) := by
  refine ⟨?_, fun m n nodes hn hne hfitted k Z ballots hlacking h =>
    hn.announces hne hfitted hlacking h, ?_⟩
  · intro env w n nodes hn hne hids X y hfit k Z ballots h
    rcases hrun : n.fit env X y w with ⟨_, v⟩
    rw [hrun] at hfit h
    dsimp only at hfit h ⊢
    subst hfit
    unfold fit at hrun
    obtain ⟨frame, -, hrun⟩ := Work.ok_of_except hrun
    obtain ⟨target, -, hrun⟩ := Work.ok_of_except hrun
    obtain ⟨Ss, hSs, -⟩ := exists_labels h
    obtain ⟨hfitted, hlacking⟩ := hn.ready hne hids hrun (exists_ok_of_mapM hSs)
    exact hn.announces hne hfitted hlacking h
  · intro m n q before after hn hfitted Z C hbefore hq hC hcount
    rw [transform_frame] at hC
    obtain ⟨e, he, hexact⟩ := hn.refuses hfitted hbefore hq hC hcount
    exact ⟨_, he, rfl, fun hlacking => congrArg Failure.mismatch (hexact hlacking)⟩

theorem members_decide_ties :
    (∃ F, (Tied.vote.transform (Tied.vote.fit Tied.surroundings (.frame Tied.frame)
        (.series Tied.target) Tied.start).2.memory (.frame Tied.frame)).outcome = .ok F ∧
      Announces .text Tied.ballots (.text "e") Tied.frame F) ∧
    (∃ F, (Tied.bagging.transform Tied.memory (.frame Tied.frame)).outcome = .ok F ∧
      Announces .text Tied.ballots (.text "e") Tied.frame F) ∧
    ∃ e, (Tied.unsureVote.transform Tied.memory (.frame Tied.twoColumns)).outcome = .error e ∧
      e.kind = "ShapeMismatchError" := by
  obtain ⟨hfit, hmemory, hrefuse⟩ := members_decide
  refine ⟨?_, ?_, ?_⟩
  · have h := hfit Tied.surroundings Tied.start Tied.vote Tied.members (.vote rfl) (by decide)
      (by decide) (.frame Tied.frame) (.series Tied.target)
    rw [Tied.fit_vote] at h ⊢
    exact h rfl .text Tied.frame Tied.ballots Tied.casts_members
  · exact hmemory Tied.memory Tied.bagging Tied.copies (.bagging rfl) (by decide) (by decide) .text
      Tied.frame Tied.ballots (by decide) Tied.casts_copies
  · have hsure : ∀ p ∈ [Tied.sure],
        ∃ S, (p.labels Tied.memory Tied.twoColumns).outcome = .ok S := by
      intro p hp
      obtain rfl := List.mem_singleton.1 hp
      exact ⟨_, by cbv⟩
    have hplain : ∀ l, Tied.unsure.plan ≠ .learner l := by
      intro l hl
      cases hl
    obtain ⟨e, he, hkind, -⟩ := hrefuse Tied.memory Tied.unsureVote Tied.unsure [Tied.sure] []
      (.vote rfl) (by decide) Tied.twoColumns Tied.twoColumns hsure hplain (by cbv) (by decide)
    exact ⟨e, he, hkind⟩

end Node
end ColumnFlow
