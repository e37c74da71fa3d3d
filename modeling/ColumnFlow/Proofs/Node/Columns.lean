import ColumnFlow.Proofs.Node.Projecting

/-!
# The order of columns and other columns

Trees of library nodes that end in a prediction, after anything that may have been done to them. The
order of the columns of a frame does not matter to them, even where columns are passed on, renamed
or put beside others. Further columns do not matter as long as they clash with nothing.
-/
namespace ColumnFlow

namespace Node

variable {r : Roster} {w : Workspace} {s : Site} {F F' G : Frame}

theorem outcome_transform (n : Node) (m : Memory) (X : Frame) :
    (n.transform m (.frame X)).outcome = n.reply m X := by
  rw [transform_frame]
  rfl

theorem reply_passthrough {options : Options} (hw : r.Reaches w)
    (hr : r s.id = some (Passthrough.passthrough options))
    (hG : reply w.memory ⟨.transformer (Passthrough.passthrough options), s⟩ F = .ok G) :
    G = F := by
  obtain ⟨labels, f, hlabels, hlearned, -, hrun⟩ := exists_knowledge hG
  obtain ⟨X, -, hX⟩ := hw.teaches hr hlabels hlearned
  obtain rfl := Option.some.inj (Except.ok.inj hX)
  exact (Except.ok.inj hrun).symm

/-! Trees to look at: two passthroughs side by side, behind them a learner that predicts the last of
the columns it was fitted with; and a vote of the two passthroughs. -/

namespace Doubled

def pass : Transformer := Passthrough.passthrough []

def last : Learner := ⟨"Last", [], .labels, "classification", fun _ _ =>
  pure (some ⟨fun X => (X.columns.getLast?).elim (Logged.fail .key) pure, none⟩)⟩

def passes : List Plan := [.transformer pass, .transformer pass]

def pair : Node := ⟨.parallel passes, .mk 2 [.mk 0 [], .mk 1 []]⟩

def tree : Node := ⟨.sequential [pair.plan, .learner last], .mk 4 [pair.site, .mk 3 []]⟩

def vote : Node := ⟨.vote passes, pair.site⟩

def roster : Roster := fun i => if i < 2 then some pass else none

/-- A tree after its first fit. -/
def fitted (n : Node) (X : Frame) (y : Series) : Workspace :=
  (Door.node.fit ⟨.error (.unusable .value), .builtin⟩ n (.frame X) (.series y)
    ⟨⟨#[.fresh (.text "a"), .fresh (.text "b"), .fresh (.text "both"), .fresh (.text "last"),
      .fresh (.text "seq")]⟩, [], false⟩).2

variable {P : Node → Prop} {q : Node}

theorem throughout_leaf (hparts : q.parts = []) (h : P q) : q.Throughout P :=
  .node h fun p hp => by rw [hparts] at hp; cases hp

theorem mem_passes (hq : q ∈ zipParts passes pair.site.parts) :
    ∃ i < 2, q = ⟨.transformer pass, .mk i []⟩ := by
  rcases List.mem_cons.1 hq with rfl | hq
  · exact ⟨0, by decide, rfl⟩
  · exact ⟨1, by decide, List.mem_singleton.1 hq⟩

theorem throughout_passes (h : ∀ i < 2, P ⟨.transformer pass, .mk i []⟩) :
    ∀ q ∈ zipParts passes pair.site.parts, q.Throughout P := by
  intro q hq
  obtain ⟨i, hi, rfl⟩ := mem_passes hq
  exact throughout_leaf rfl (h i hi)

theorem throughout_tree (htree : P tree) (hpair : P pair)
    (hpass : ∀ i < 2, P ⟨.transformer pass, .mk i []⟩) (hlast : P ⟨.learner last, .mk 3 []⟩) :
    tree.Throughout P := by
  refine .node htree fun q hq => ?_
  rcases List.mem_cons.1 hq with rfl | hq
  · exact .node hpair (throughout_passes hpass)
  · obtain rfl := List.mem_singleton.1 hq
    exact throughout_leaf rfl hlast

theorem reaches {n : Node} (hlisted : n.Throughout roster.Lists) (hids : ∀ i ∈ n.site.ids, i < 5)
    (X : Frame) (y : Series) : roster.Reaches (fitted n X y) := by
  refine .fit _ n _ _ .node (.start fun i hi => ?_) hlisted hids fun i hi _ => ?_
  · match i with
    | 0 | 1 => rfl
    | i + 2 =>
      have hnone : roster (i + 2) = none := if_neg (by omega)
      rw [hnone] at hi
      cases hi
  · exact if_neg (Nat.not_lt.2 (Nat.le_trans (by decide) hi))

theorem lists_tree : tree.Throughout roster.Lists :=
  throughout_tree rfl rfl (fun _ hi => if_pos hi) rfl

theorem lists_vote : vote.Throughout roster.Lists :=
  .node (n := vote) rfl (throughout_passes fun _ hi => if_pos hi)

theorem deployed_tree {X : Frame} {y : Series}
    (hnames : ∀ i ∈ tree.site.ids, ((fitted tree X y).memory.slot i).name.isText = true) :
    tree.Deployed roster (fitted tree X y) :=
  ⟨reaches lists_tree (by decide) X y, lists_tree,
    throughout_tree trivial trivial (fun _ _ => .passthrough []) trivial, hnames⟩

theorem deployed_vote {X : Frame} {y : Series}
    (hnames : ∀ i ∈ vote.site.ids, ((fitted vote X y).memory.slot i).name.isText = true) :
    vote.Deployed roster (fitted vote X y) :=
  ⟨reaches lists_vote (by decide) X y, lists_vote,
    .node (n := vote) trivial (throughout_passes fun _ _ => .passthrough []), hnames⟩

theorem predictive_tree : tree.Predictive := .sequential rfl (.learner last _)

/-- Nothing clashes with the tree but what meets the doubled columns. -/
theorem clash_tree (hw : roster.Reaches w) (h : tree.Clash w.memory F F') :
    ∃ G, pair.reply w.memory F = .ok G ∧ F.Meets F' G := by
  have hreply : ∀ q ∈ zipParts passes pair.site.parts, ∀ {A C : Frame},
      q.reply w.memory A = .ok C → C = A := by
    intro q hq A C hC
    obtain ⟨i, hi, rfl⟩ := mem_passes hq
    have hlisted : roster i = some pass := if_pos hi
    exact reply_passthrough (s := .mk i []) hw hlisted hC
  obtain ⟨before, q, after, A, A', hparts, hA, hA', hclash⟩ := clash_sequential h
  rcases List.append_eq_cons_iff.1 hparts.symm with ⟨rfl, hq⟩ | ⟨rest, rfl, hq⟩
  · obtain rfl := (List.cons.inj hq).1
    obtain rfl := Except.ok.inj hA
    obtain rfl := Except.ok.inj hA'
    rcases clash_parallel hclash with ⟨q, hq, hclash⟩ | ⟨q, hq, C, C', G, hC, hC', hG, hmeets⟩
    · obtain ⟨i, hi, rfl⟩ := mem_passes hq
      obtain ⟨G, hG, hspares⟩ := clash_transformer hclash
      rw [hreply _ hq hG] at hspares
      exact absurd (fun _ hl _ => hl) hspares
    · rw [hreply q hq hC, hreply q hq hC'] at hmeets
      exact ⟨G, hG, hmeets⟩
  · rcases List.append_eq_cons_iff.1 hq.symm with ⟨rfl, hq⟩ | ⟨rest, rfl, hq⟩
    · obtain rfl := (List.cons.inj hq).1
      exact absurd hclash (not_clash_learner _)
    · simp at hq

end Doubled

/-- The order of the columns does not matter to a prediction. Whatever is passed on, put side by
side and renamed on the way, every label still stands for the same column in the end. -/
theorem column_order_irrelevant {n : Node} (h : n.Deployed r w) (hpredictive : n.Predictive)
    (X X' : Frame) (htexts : ∀ l ∈ X.labels, l.isText = true) (hdistinct : X.labels.Nodup)
    (hindex : X'.index = X.index) (hcolumns : X'.columns.Perm X.columns) (G : Frame) :
    (n.transform w.memory (.frame X')).outcome = .ok G ↔
      (n.transform w.memory (.frame X)).outcome = .ok G := by
  have hX : X.Within X' := .of_perm htexts hdistinct hindex hcolumns
  have hX' : X'.Within X := hX.symm fun l hl => (hcolumns.map _).mem_iff.1 hl
  -- Each of the two is within the other, so it is enough to go one way.
  have hsame : ∀ F F' : Frame, F.Within F' → F'.Within F → n.reply w.memory F = .ok G →
      n.reply w.memory F' = .ok G := by
    intro F F' hF hF' hG
    obtain ⟨G', hG', -, hsame⟩ := h.projects F F' G hF (.inl hF') hG
    rw [← hsame hpredictive]
    exact hG'
  rw [outcome_transform, outcome_transform]
  exact ⟨hsame X' X hX' hX, hsame X X' hX hX'⟩

/-- Columns in another order, all of which are doubled and renamed on the way. -/
theorem column_order_irrelevant_doubled :
    let x : Column := ⟨.text "x", .int64, [.int 1, .int 2]⟩
    let y : Column := ⟨.text "y", .int64, [.int 3, .int 4]⟩
    let X : Frame := ⟨[.int 0, .int 1], [x, y]⟩
    let X' : Frame := ⟨[.int 0, .int 1], [y, x]⟩
    let m := (Doubled.fitted Doubled.tree X ⟨x, X.index⟩).memory
    ∃ G, (Doubled.tree.transform m (.frame X)).outcome = .ok G ∧
      (Doubled.tree.transform m (.frame X')).outcome = .ok G := by
  intro x y X X' m
  have hok : (Doubled.tree.transform m (.frame X)).outcome.toBool = true := by decide +kernel
  cases hG : (Doubled.tree.transform m (.frame X)).outcome with
  | error e =>
    rw [hG] at hok
    cases hok
  | ok G =>
    have hdistinct : X.labels.Nodup := by simp [X, x, y, Frame.labels]
    refine ⟨G, rfl, ?_⟩
    exact (column_order_irrelevant (Doubled.deployed_tree (by decide +kernel))
      Doubled.predictive_tree X X' (by decide) hdistinct rfl (.swap x y []) G).2 hG

/-- Further columns do not matter to a prediction if they clash with nothing. -/
theorem extra_columns_irrelevant {n : Node} (h : n.Deployed r w) (hpredictive : n.Predictive)
    (X G : Frame) (extra : List Column) (htexts : ∀ l ∈ X.labels, l.isText = true)
    (hextra : ∀ c ∈ extra, c.label ∉ X.labels)
    (hclash : ¬ n.Clash w.memory X ⟨X.index, X.columns ++ extra⟩)
    (hG : (n.transform w.memory (.frame X)).outcome = .ok G) :
    (n.transform w.memory (.frame ⟨X.index, X.columns ++ extra⟩)).outcome = .ok G := by
  rw [outcome_transform] at hG ⊢
  obtain ⟨G', hG', -, hsame⟩ := h.projects X _ G (.of_append htexts hextra) (.inr hclash) hG
  rw [← hsame hpredictive]
  exact hG'

/-- A further column, doubled and renamed beside the others. -/
theorem extra_columns_irrelevant_doubled :
    let x : Column := ⟨.text "x", .int64, [.int 1, .int 2]⟩
    let z : Column := ⟨.text "z", .int64, [.int 3, .int 4]⟩
    let X : Frame := ⟨[.int 0, .int 1], [x]⟩
    let m := (Doubled.fitted Doubled.tree X ⟨x, X.index⟩).memory
    ¬ Doubled.tree.Clash m X ⟨X.index, X.columns ++ [z]⟩ ∧
      ∃ G, (Doubled.tree.transform m (.frame X)).outcome = .ok G ∧
        (Doubled.tree.transform m (.frame ⟨X.index, X.columns ++ [z]⟩)).outcome = .ok G := by
  intro x z X m
  have hdeployed : Doubled.tree.Deployed Doubled.roster
      (Doubled.fitted Doubled.tree X ⟨x, X.index⟩) :=
    Doubled.deployed_tree (by decide +kernel)
  have hmeets : ∀ G : Frame, X.Meets ⟨X.index, X.columns ++ [z]⟩ G →
      ∃ l ∈ G.labels, l.plain = "z" := by
    rintro G ⟨l, hl, hnot, k, hk, hplain⟩
    rcases List.mem_cons.1 hl with rfl | hl
    · exact absurd List.mem_cons_self hnot
    · rw [List.mem_singleton.1 hl] at hplain
      exact ⟨k, hk, hplain⟩
  have hclash : ¬ Doubled.tree.Clash m X ⟨X.index, X.columns ++ [z]⟩ := by
    intro hclash
    obtain ⟨G, hG, h⟩ := Doubled.clash_tree hdeployed.reached hclash
    obtain ⟨l, hl, hplain⟩ := hmeets G h
    have hlabels : ((Doubled.pair.reply m X).toOption.map fun G =>
        G.labels.all fun l => l.plain != "z") = some true := by decide +kernel
    rw [hG] at hlabels
    have hne := List.all_eq_true.1 (Option.some.inj hlabels) l hl
    rw [hplain] at hne
    exact absurd hne (by decide)
  have hok : (Doubled.tree.transform m (.frame X)).outcome.toBool = true := by decide +kernel
  cases hG : (Doubled.tree.transform m (.frame X)).outcome with
  | error e =>
    rw [hG] at hok
    cases hok
  | ok G =>
    refine ⟨hclash, G, rfl, ?_⟩
    exact extra_columns_irrelevant hdeployed Doubled.predictive_tree X G [z] (by decide)
      (by simp [X, x, z, Frame.labels]) hclash hG

/-- Whatever further columns a frame has, an answer stays the same. -/
def IgnoresExtras (m : Memory) (n : Node) : Prop :=
  ∀ (X G : Frame) (extra : List Column), (∀ l ∈ X.labels, l.isText = true) → X.labels.Nodup →
    (∀ c ∈ extra, c.label ∉ X.labels) → (n.transform m (.frame X)).outcome = .ok G →
      (n.transform m (.frame ⟨X.index, X.columns ++ extra⟩)).outcome = .ok G

theorem IgnoresExtras.outcome_eq {m : Memory} {n : Node} (h : n.IgnoresExtras m) {X : Frame}
    {extra : List Column} (htexts : ∀ l ∈ X.labels, l.isText = true) (hdistinct : X.labels.Nodup)
    (hextra : ∀ c ∈ extra, c.label ∉ X.labels)
    (hok : (n.transform m (.frame X)).outcome.toBool = true) :
    (n.transform m (.frame ⟨X.index, X.columns ++ extra⟩)).outcome =
      (n.transform m (.frame X)).outcome := by
  cases hG : (n.transform m (.frame X)).outcome with
  | error e =>
    rw [hG] at hok
    cases hok
  | ok G => exact h X G extra htexts hdistinct hextra hG

/-- Further columns matter where a doubled column would have had the label of one of them, so that
the learner takes this one for it, and where a vote is of members that pass everything on. -/
theorem extra_columns_relevant :
    let x : Column := ⟨.text "x", .int64, [.int 1, .int 2]⟩
    let X : Frame := ⟨[.int 0, .int 1], [x]⟩
    let w := Doubled.fitted Doubled.tree X ⟨x, X.index⟩
    let v := Doubled.fitted Doubled.vote X ⟨x, X.index⟩
    (Doubled.tree.Deployed Doubled.roster w ∧ Doubled.tree.Predictive ∧
        ¬ Doubled.tree.IgnoresExtras w.memory) ∧
      Doubled.vote.Deployed Doubled.roster v ∧ Doubled.vote.Predictive ∧
        ¬ Doubled.vote.IgnoresExtras v.memory := by
  intro x X w v
  let z : Column := ⟨.text "x_1", .int64, [.int 7, .int 8]⟩
  have hextra : ∀ c ∈ [z], c.label ∉ X.labels := by simp [X, x, z, Frame.labels]
  have hdistinct : X.labels.Nodup := by simp [X, Frame.labels]
  refine ⟨⟨Doubled.deployed_tree (by decide +kernel), Doubled.predictive_tree, fun h => ?_⟩,
    Doubled.deployed_vote (by decide +kernel), .vote _ _, fun h => ?_⟩
  -- The repeat of `x` is called `x_2` now, and the learner goes by `x_1`.
  · have heq := h.outcome_eq (by decide) hdistinct hextra (by decide +kernel)
    let cells (o : Except Failure Frame) : Option (List (List (Option Int))) :=
      o.toOption.map fun G => G.columns.map fun c => c.cells.map Domain.whole?
    have hcells : cells (Doubled.tree.transform w.memory (.frame X)).outcome =
          some [[some 1, some 2]] ∧
        cells (Doubled.tree.transform w.memory (.frame ⟨X.index, X.columns ++ [z]⟩)).outcome =
          some [[some 7, some 8]] := by decide +kernel
    rw [heq, hcells.1] at hcells
    exact absurd hcells.2 (by decide)
  -- Both members answer with two columns, and a vote asks for one.
  · have heq := h.outcome_eq (by decide) hdistinct hextra (by decide +kernel)
    have hfails : (Doubled.vote.transform v.memory
        (.frame ⟨X.index, X.columns ++ [z]⟩)).outcome.toBool = false := by decide +kernel
    have hok : (Doubled.vote.transform v.memory (.frame X)).outcome.toBool = true := by
      decide +kernel
    rw [heq, hok] at hfails
    cases hfails

end Node
end ColumnFlow
