import ColumnFlow.Learn.Simple
import ColumnFlow.Proofs.CrossValidation.Independence
import ColumnFlow.Proofs.Node.Relabelling

/-!
# Row labels never influence results

Fits and answers of a tree hang on rows and not on what the rows are called, whatever other trees
have learned. What is kept of the labels is that every answer carries those of its input. Only
selectors can break this: columns that are called true and false look to them like a choice of rows.
-/
namespace ColumnFlow

namespace Memory

/-- The memory of some identities alone; under all others nothing was learned. -/
def only (S : List Nat) (m : Memory) : Memory :=
  ⟨m.slots.mapIdx fun i s => if i ∈ S then s else { s with learned := .nothing }⟩

variable {S : List Nat} {m : Memory}

theorem slot_only (i : Nat) :
    (m.only S).slot i = if i ∈ S then m.slot i else { m.slot i with learned := .nothing } := by
  unfold only slot
  rw [Array.getElem?_mapIdx]
  cases m.slots[i]? with
  | some s => rfl
  | none =>
    split
    · rfl
    · rfl

theorem RowBlind.empty : Memory.empty.RowBlind := fun _ => trivial

theorem only_rowBlind (h : ∀ i ∈ S, (m.slot i).learned.RowBlind) : (m.only S).RowBlind := by
  intro i
  rw [slot_only]
  split
  · next hi => exact h i hi
  · trivial

theorem mirrors_only (h : ∀ i ∈ S, i < m.next) : Mirrors id S m (m.only S) := by
  have hnext : (m.only S).next = m.next := Array.size_mapIdx
  refine ⟨fun i hi => ?_, fun _ _ _ _ h => h, h, fun i hi => ?_⟩
  · rw [id, slot_only, if_pos hi]
  · rw [hnext]
    exact h i hi

end Memory

namespace Node

variable {m m' : Memory} {n : Node}

/-- What a tree has learned sees values only. -/
def SeesValues (m : Memory) (n : Node) : Prop :=
  ∀ i ∈ n.site.ids, (m.slot i).learned.RowBlind

theorem keepsEveryRow_same (h : m.Renamed id n.site.ids m')
    (hkeeps : n.Throughout (KeepsEveryRow m)) : n.Throughout (KeepsEveryRow m') := by
  induction n using Node.induction with
  | step n ih =>
    refine .node (fun f hf => hkeeps.self f ?_) fun q hq => ?_
    · exact (congrArg Slot.learned (h _ n.site.id_mem_ids)).trans hf
    · exact ih q hq (h.mono fun i hi => ids_of_mem_parts hq hi) (hkeeps.part hq)

theorem fit_shared (env : Surroundings) (hn : n.plan.RowBlind) {X X' : Frame} {y y' : Data}
    (hX : X.Reindexed X') (hy : y.Reindexed y') :
    Work.Alongside Memory.Shared (n.fit env (.frame X) y) (n.fit env (.frame X') y') := by
  unfold fit
  refine .except (R := Frame.Reindexed) (.ok hX) fun F F' hF => ?_
  exact .except hy.toSeries fun target target' ht => Plan.fitsAlike env hn n.site F F' _ _ hF ht

theorem fit_only (env : Surroundings) (X y : Data) {w : Workspace} (hw : n.InUse w.memory) :
    (n.fit env X y w).1 = (n.fit env X y { w with memory := w.memory.only n.site.ids }).1 ∧
      (n.fit env X y w).2.memory.Renamed id n.site.ids
        (n.fit env X y { w with memory := w.memory.only n.site.ids }).2.memory := by
  have hfit : Work.Alongside (Memory.Tracks id n.site.ids w.memory (w.memory.only n.site.ids))
      (n.fit env X y) (n.fit env X y) :=
    .bind (.steady (.except _)) fun frame => .bind (.steady (.except _)) fun target =>
      Plan.fit_follows env n.plan frame target (List.Subset.refl _)
  obtain ⟨houtcome, htracks⟩ := (hfit w { w with memory := w.memory.only n.site.ids }
    (Memory.mirrors_only hw).tracks).ends_alike
  exact ⟨houtcome, htracks.mirrors.renamed⟩

/-- Row labels never influence results. A tree of library nodes, whose methods and learners see
values only, is fitted on features and a target under any row labels with one outcome, success or
failure, and answers alike afterwards: frames that differ in row labels alone are both refused for
one reason, or are answered with the same columns and values in the same order. What the tree has
learned sees values only again. Answers carry the row labels of the input, unless a node of the tree
has learned to choose rows. -/
theorem row_labels_irrelevant (env : Surroundings) (n : Node) (hn : n.plan.RowBlind)
    (w : Workspace) (hw : n.InUse w.memory) (hseen : n.SeesValues w.memory) (X X' : Frame)
    (y y' : Data) (hX : X.Reindexed X') (hy : y.Reindexed y') :
    let fitted := n.fit env (.frame X) y w
    let again := n.fit env (.frame X') y' w
    again.1 = fitted.1 ∧ n.SeesValues fitted.2.memory ∧ n.SeesValues again.2.memory ∧
      ∀ Z Z' : Frame, Z.Reindexed Z' → Except.Alike
        (fun G G' => G.Reindexed G' ∧
          (n.Throughout (KeepsEveryRow fitted.2.memory) → G.index = Z.index ∧ G'.index = Z'.index))
        (n.transform fitted.2.memory (.frame Z)).outcome
        (n.transform again.2.memory (.frame Z')).outcome := by
  intro fitted again
  -- Other trees may have learned anything, so the fits are taken to a memory without them.
  let alone : Workspace := { w with memory := w.memory.only n.site.ids }
  obtain ⟨hfitted, hslots⟩ := fit_only env (.frame X) y hw
  obtain ⟨hagain, hslots'⟩ := fit_only env (.frame X') y' hw
  obtain ⟨houtcome, hmemory, hblind⟩ := (fit_shared env hn hX hy alone alone
    ⟨rfl, Memory.only_rowBlind hseen⟩).ends_alike
  rw [hmemory] at hslots'
  have hsees : ∀ {m : Memory}, m.Renamed id n.site.ids (n.fit env (.frame X) y alone).2.memory →
      n.SeesValues m := fun h i hi => h i hi ▸ hblind i
  refine ⟨hagain.trans (houtcome.symm.trans hfitted.symm), hsees hslots, hsees hslots',
    fun Z Z' hZ => ?_⟩
  rw [← (seen_same hslots).2, ← (seen_same hslots').2, transform_frame, transform_frame]
  have hindex : ∀ F G, n.reply (n.fit env (.frame X) y alone).2.memory F = .ok G →
      n.Throughout (KeepsEveryRow fitted.2.memory) → G.index = F.index :=
    fun F G hG hkeeps => index_reply hn hblind (keepsEveryRow_same hslots hkeeps) hG
  exact ((reply_alike hn hblind hZ).and (hindex Z) (hindex Z')).mono
    fun G G' h => ⟨h.1, fun hkeeps => ⟨h.2.1 hkeeps, h.2.2 hkeeps⟩⟩

end Node

/-- The most frequent label of a target has nothing to do with row labels. -/
theorem Learn.majority_rowBlind (binding problem : String) (options : Options)
    (mode : OutputMode) : Learner.RowBlind ⟨binding, options, mode, problem, majority⟩ := by
  intro X X' y y' hX hy
  have hsame : majority X' y' = majority X y := by
    unfold majority
    rw [hy.cells, hy.rows_eq]
  refine ⟨congrArg Logged.outcome hsame, fun model h => ?_⟩
  change (majority X y).outcome = _ at h
  unfold majority at h
  split at h
  · cases h
  · obtain rfl := Option.some.inj (Except.ok.inj h)
    refine ⟨fun Z Z' hZ => ?_, fun f hf Z Z' hZ => ?_⟩
    · dsimp only
      rw [hZ.rows]
    · obtain rfl := Option.some.inj hf
      dsimp only
      rw [hZ.rows]
      exact .ok (.of_rows hZ.rows _)

namespace Node

/-- The numbers of a frame, and the most frequent label for them. -/
def majorityOfNumbers : Node :=
  ⟨.sequential [.transformer (Selection.numeric []),
    .learner ⟨"Majority", [], .labels, "classification", Learn.majority⟩],
    .mk 2 [.mk 0 [], .mk 1 []]⟩

def majoritySpace : Workspace :=
  ⟨⟨#[.fresh (.text "numbers"), .fresh (.text "guess"), .fresh (.text "both")]⟩, [], false⟩

def twoRows (index : List Label) (labels : List Label) : Frame :=
  ⟨index, labels.map fun l => ⟨l, .int64, [.int 1, .int 2]⟩⟩

def twoTargets (index : List Label) : Data :=
  .series ⟨⟨.text "y", .text, [.text "a", .text "a"]⟩, index⟩

/-- The memory after a fit on rows that have one label. -/
def majorityMemory : Memory :=
  (majorityOfNumbers.fit ⟨.ok .standard, .builtin⟩ (.frame (twoRows [.int 7, .int 7] [.text "x"]))
    (twoTargets [.int 3, .int 1]) majoritySpace).2.memory

theorem majorityMemory_keepsEveryRow :
    majorityOfNumbers.Throughout (KeepsEveryRow majorityMemory) := by
  refine .node (fun f hf => nomatch hf) fun q hq => .node ?_ fun r hr => ?_
  · rcases List.mem_cons.1 hq with rfl | hq
    · intro f hf
      have hlearned : (majorityMemory.slot 0).learned = .fitted ⟨[(.text "type",
          .text "numeric_selector"), (.text "columns", .ofLabels [.text "x"])], Selection.apply,
          fun _ _ => false⟩ := rfl
      obtain rfl := Learned.fitted.inj (hlearned.symm.trans hf)
      rintro ⟨-, labels, hlabels, -, hall⟩
      obtain rfl : [.text "x"] = labels := Except.ok.inj hlabels
      cases hall
    · obtain rfl := List.mem_singleton.1 hq
      exact fun f hf => nomatch hf
  · rcases List.mem_cons.1 hq with rfl | hq
    · cases hr
    · obtain rfl := List.mem_singleton.1 hq
      cases hr

theorem majorityOfNumbers_rowBlind : majorityOfNumbers.plan.RowBlind := by
  refine .sequential fun p hp => ?_
  rcases List.mem_cons.1 hp with rfl | hp
  · exact .transformer (.numeric [])
  · obtain rfl := List.mem_singleton.1 hp
    exact .learner (Learn.majority_rowBlind _ _ _ _)

theorem majoritySpace_rowBlind : majoritySpace.memory.RowBlind :=
  ((Memory.RowBlind.empty.alloc (.text "numbers")).alloc (.text "guess")).alloc (.text "both")

/-- Rows that share their labels and a target with labels of its own. -/
theorem row_labels_irrelevant_repeated :
    (majorityOfNumbers.fit ⟨.ok .standard, .builtin⟩
        (.frame (twoRows [.int 0, .int 1] [.text "x"])) (twoTargets [.int 0, .int 1])
        majoritySpace).1 = .ok () ∧
      ∃ G, (majorityOfNumbers.transform majorityMemory
        (.frame (twoRows [.text "b", .text "b"] [.text "x"]))).outcome = .ok G ∧
        G.columns = [⟨.text "guess", .text, [.text "a", .text "a"]⟩] ∧
        G.index = [.text "b", .text "b"] := by
  obtain ⟨hfit, -, -, hanswers⟩ := row_labels_irrelevant ⟨.ok .standard, .builtin⟩
    majorityOfNumbers majorityOfNumbers_rowBlind majoritySpace (by decide)
    (fun i _ => majoritySpace_rowBlind i)
    (twoRows [.int 7, .int 7] [.text "x"]) (twoRows [.int 0, .int 1] [.text "x"])
    (twoTargets [.int 3, .int 1]) (twoTargets [.int 0, .int 1]) ⟨rfl, rfl⟩ (.series ⟨rfl, rfl⟩)
  refine ⟨hfit.trans rfl, ?_⟩
  obtain ⟨G, hG, hsame, hindex⟩ := (hanswers (twoRows [.text "b", .text "b"] [.text "x"])
    (twoRows [.int 0, .int 1] [.text "x"]) ⟨rfl, rfl⟩).exists_left
      (b := ⟨[.int 0, .int 1], [⟨.text "guess", .text, [.text "a", .text "a"]⟩]⟩) rfl
  exact ⟨G, hG, hsame.columns.symm, (hindex majorityMemory_keepsEveryRow).1⟩

/-- Selects the columns of numbers. -/
def numbers : Node := ⟨.transformer (Selection.numeric []), .mk 0 []⟩

theorem rows_chosen_by_truth : ¬ ∀ (env : Surroundings) (n : Node) (w : Workspace) (X Z G : Frame)
    (y : Data), n.plan.RowBlind → n.InUse w.memory → n.SeesValues w.memory →
    (n.fit env (.frame X) y w).1 = .ok () →
    (n.transform (n.fit env (.frame X) y w).2.memory (.frame Z)).outcome = .ok G →
    G.index = Z.index := by
  intro h
  have hindex := h ⟨.ok .standard, .builtin⟩ numbers majoritySpace
    (twoRows [.int 5, .int 7] [.bool true, .bool false])
    (twoRows [.int 5, .int 7] [.bool true, .bool false])
    ⟨[.int 5], [⟨.bool true, .int64, [.int 1]⟩, ⟨.bool false, .int64, [.int 1]⟩]⟩ (.plain .null)
    (.transformer (.numeric [])) (by decide) (fun i _ => majoritySpace_rowBlind i) rfl rfl
  exact absurd (congrArg List.length hindex) (by decide)

end Node
end ColumnFlow
