import ColumnFlow.Node.Elements
import ColumnFlow.Proofs.Node.Equivalence

/-!
# Parallels and their groupings

A parallel puts the outputs of its parts side by side. Parallels inside a parallel fit the innermost
parts one after another on the same data, so it does not matter for what these learn and answer how
they are grouped. They may share nodes.
-/
namespace ColumnFlow

namespace Node

variable {env : Surroundings} {w w' v : Workspace} {n : Node}
  {nodes nodes' leaves leaves' : List Node} {m : Memory} {s : Site} {S own own' : List Nat} {X Z : Frame} {y y' : Option Series} {e : Failure}
  {outputs : List Frame}

/-! Nodes that are fitted one after another on the same data. -/

def fitEach (env : Surroundings) (nodes : List Node) (X : Frame) (y : Option Series) : Work Unit :=
  Plan.fitAll env (plans nodes) (sites nodes) X y

theorem fitEach_cons (env : Surroundings) (n : Node) (nodes : List Node) (X : Frame)
    (y : Option Series) :
    fitEach env (n :: nodes) X y = (do
      n.plan.fit env n.site X y
      fitEach env nodes X y) := rfl

theorem fitEach_append (env : Surroundings) (nodes nodes' : List Node) (X : Frame)
    (y : Option Series) :
    fitEach env (nodes ++ nodes') X y = (do
      fitEach env nodes X y
      fitEach env nodes' X y) := by
  induction nodes with
  | nil => exact (pure_bind () fun _ => fitEach env nodes' X y).symm
  | cons n nodes ih => rw [List.cons_append, fitEach_cons, fitEach_cons, ih, bind_assoc]

theorem fitEach_single (env : Surroundings) (n : Node) (X : Frame) (y : Option Series) :
    fitEach env [n] X y = n.plan.fit env n.site X y := by
  exact bind_pure_unit

theorem fitEach_aligned (hy : alignTarget y X = .ok y') :
    fitEach env nodes X y' = fitEach env nodes X y := by
  induction nodes with
  | nil => rfl
  | cons n nodes ih => rw [fitEach_cons, fitEach_cons, fit_aligned hy, ih]

theorem fitEach_refused (hy : alignTarget y X = .error e) (hne : nodes ≠ []) :
    fitEach env nodes X y w = (.error e, w) := by
  obtain ⟨n, nodes, rfl⟩ := List.exists_cons_of_ne_nil hne
  rw [fitEach_cons, Work.run_bind, fit_refused hy]

theorem fitEach_extends (env : Surroundings) (X : Frame) (y : Option Series)
    (h : ∀ i ∈ Site.idsOf (sites nodes), i < w.memory.next) :
    Memory.Extends (Site.idsOf (sites nodes)) w.memory (fitEach env nodes X y w).2.memory :=
  Plan.fitAll_extends env (plans nodes) X y h

/-- The node that was fitted last has kept the columns. -/
theorem exists_columns (h : ∀ i ∈ Site.idsOf (sites nodes), i < w.memory.next) (hne : nodes ≠ [])
    (hfit : fitEach env nodes X y w = (.ok (), v)) :
    ∃ n ∈ nodes, v.memory.inputColumns n.site = some X.labels := by
  induction nodes generalizing w with
  | nil => exact absurd rfl hne
  | cons n nodes ih =>
    change ∀ i ∈ n.site.ids ++ Site.idsOf (sites nodes), i < w.memory.next at h
    have hfirst : ∀ i ∈ n.site.ids, i < w.memory.next := fun i hi =>
      h i (List.mem_append_left _ hi)
    have hextend := Plan.fit_extends env n.plan X y hfirst
    rw [fitEach_cons, Work.run_bind] at hfit
    rcases hn : n.plan.fit env n.site X y w with ⟨e | _, u⟩
    · rw [hn] at hfit
      cases congrArg Prod.fst hfit
    · rw [hn] at hfit hextend
      by_cases hrest : nodes = []
      · obtain rfl : u = v := by
          rw [hrest] at hfit
          exact congrArg Prod.snd hfit
        exact ⟨n, by simp, inputColumns_fit hfirst hn⟩
      · obtain ⟨q, hq, hcolumns⟩ := ih (w := u) (fun i hi => Nat.lt_of_lt_of_le
          (h i (List.mem_append_right _ hi)) hextend.next_le) hrest hfit
        exact ⟨q, by simp [hq], hcolumns⟩

/-! Nodes that all answer one frame. -/

/-- A node answers a frame with an output of its number of rows. -/
def Answers (m : Memory) (Z : Frame) (n : Node) (U : Frame) : Prop :=
  (n.transform m (.frame Z)).outcome = .ok U ∧ U.rows = Z.rows

/-- Only a node that is fitted answers, and only frames with its columns. -/
theorem Answers.guarded {U : Frame} (h : Answers m Z n U) :
    n.isFitted m = true ∧ m.lacking n.site Z = [] := by
  obtain ⟨body, hbody⟩ := exists_guarded m n.plan n.site
  have hU := h.1
  rw [transform_frame, hbody] at hU
  obtain ⟨hfitted, hlacking, -⟩ := guarded_of_ok hU
  exact ⟨hfitted, hlacking⟩

theorem lacking_eq_nil {columns : List Label} (hinput : m.inputColumns s = some columns)
    (hZ : columns.all Z.has = true) : m.lacking s Z = [] := by
  unfold Memory.lacking
  rw [hinput, Option.getD_some, List.filter_eq_nil_iff]
  intro l hl
  simpa using List.all_eq_true.1 hZ l hl

theorem allFitted_of_answers (h : List.Forall₂ (Answers m Z) nodes outputs) :
    Plan.allFitted m (plans nodes) (sites nodes) = true := by
  rw [allFitted_eq_all, List.all_map, List.all_eq_true]
  intro n hn
  induction h with
  | nil => cases hn
  | cons hfirst _ ih =>
    rcases List.mem_cons.1 hn with rfl | hn
    · exact hfirst.guarded.1
    · exact ih hn

theorem outputs_of_transform
    (h : List.Forall₂ (fun n U => (n.transform m (.frame Z)).outcome = .ok U) nodes outputs) :
    (Plan.outputs m (plans nodes) (sites nodes) Z).outcome = .ok outputs := by
  induction h with
  | nil => rfl
  | @cons n U nodes outputs hU _ ih =>
    rw [transform_frame] at hU
    change (n.plan.transform m n.site Z >>= fun first =>
      Plan.outputs m (plans nodes) (sites nodes) Z >>= fun rest => pure (first :: rest)).outcome = _
    rw [Logged.outcome_bind, hU]
    change (Plan.outputs m (plans nodes) (sites nodes) Z >>= fun rest =>
      pure (U :: rest)).outcome = _
    rw [Logged.outcome_bind, ih]
    rfl

theorem rows_of_answers (h : List.Forall₂ (Answers m Z) nodes outputs) :
    ∀ f ∈ outputs, f.rows = Z.rows := by
  induction h with
  | nil => simp
  | cons hfirst _ ih =>
    intro f hf
    rcases List.mem_cons.1 hf with rfl | hf
    · exact hfirst.2
    · exact ih f hf

theorem answers_same {m' : Memory} (hm : m.Renamed id S m') (hS : Site.idsOf (sites nodes) ⊆ S)
    (h : List.Forall₂ (Answers m Z) nodes outputs) : List.Forall₂ (Answers m' Z) nodes outputs := by
  induction h with
  | nil => exact .nil
  | @cons n U nodes outputs hfirst _ ih =>
    obtain ⟨hn, hrest⟩ := List.append_subset.1 hS
    refine .cons ⟨?_, hfirst.2⟩ (ih hrest)
    rw [← hfirst.1, transform_frame, transform_frame, Plan.transform_same _ _ (hm.mono hn)]

theorem lacking_of_answers (h : List.Forall₂ (Answers m Z) nodes outputs) :
    ∀ n ∈ nodes, m.lacking n.site Z = [] := by
  induction h with
  | nil => simp
  | cons hfirst _ ih =>
    intro n hn
    rcases List.mem_cons.1 hn with rfl | hn
    · exact hfirst.guarded.2
    · exact ih n hn

/-- A parallel whose parts all answer puts their outputs side by side. -/
theorem parallel_answers (hparts : s.parts = sites nodes) (hinput : m.hasInput s = true)
    (hlacking : m.lacking s Z = []) (h : List.Forall₂ (Answers m Z) nodes outputs) :
    (Node.transform ⟨.parallel (plans nodes), s⟩ m (.frame Z)).outcome =
      .ok (Frame.sideBySide outputs Z) := by
  have hfitted : Plan.isFitted m (.parallel (plans nodes)) s = true := by
    rw [Plan.isFitted, hinput, hparts, allFitted_of_answers h]
    rfl
  rw [transform_frame]
  dsimp only
  rw [Plan.transform, hfitted]
  unfold Memory.guarded
  rw [hlacking]
  simp only [Bool.not_true, Bool.false_eq_true, if_false]
  rw [Logged.outcome_bind, hparts, outputs_of_transform (h.imp fun _ _ hU => hU.1)]
  exact congrArg Logged.outcome (Memory.concatenate_of_rows (rows_of_answers h) m s _)

theorem idsOf_parallel {plan : Plan} (hparts : s.parts = sites nodes) :
    Site.idsOf (sites [⟨plan, s⟩]) = s.id :: Site.idsOf (sites nodes) := by
  change s.ids ++ [] = _
  rw [List.append_nil, Site.ids_eq, hparts]

theorem fitEach_parallel (env : Surroundings) (hparts : s.parts = sites nodes) (X : Frame)
    (y : Option Series) :
    fitEach env [⟨.parallel (plans nodes), s⟩] X y =
      Work.fitting s X y fun y => fitEach env nodes X y := by
  rw [fitEach_single]
  dsimp only
  rw [Plan.fit, hparts]
  rfl

/-- A parallel fits the nodes in it between two changes of its columns. -/
theorem fitEach_parallel_run (hy : alignTarget y X = .ok y') (hparts : s.parts = sites nodes)
    (w : Workspace) :
    fitEach env [⟨.parallel (plans nodes), s⟩] X y w =
      match fitEach env nodes X y { w with memory := w.memory.withInput s none } with
      | (.ok _, v) => (.ok (), { v with memory := v.memory.withInput s (some X.labels) })
      | (.error e, v) => (.error e, v) := by
  rw [fitEach_parallel env hparts, ← fitEach_aligned hy]
  unfold Work.fitting
  rw [hy, Work.run_ok_bind, Work.run_setInput_bind, Work.run_bind]
  dsimp only
  rcases fitEach env nodes X y' { w with memory := w.memory.withInput s none } with ⟨_ | _, v⟩ <;>
    rfl

/-! Nodes that stand for the innermost parts of what is nested in them. -/

/-- Some nodes are fitted like others, the leaves, whose identities are in `S`. Apart from these
they change only identities of their own, where they keep their columns; and where these are kept
they put together what the leaves answer. -/
structure StandFor (env : Surroundings) (S own : List Nat) (nodes leaves : List Node) : Prop where
  within : Site.idsOf (sites leaves) ⊆ S
  ids : ∀ i, i ∈ Site.idsOf (sites nodes) ↔ i ∈ own ∨ i ∈ Site.idsOf (sites leaves)
  fit : ∀ X y, Work.Alongside (Memory.Mirrors id S) (fitEach env nodes X y) (fitEach env leaves X y)
  columns : ∀ X y w v, (∀ i ∈ Site.idsOf (sites nodes), i < w.memory.next) →
    fitEach env nodes X y w = (.ok (), v) →
      ∀ i ∈ own, (v.memory.slot i).inputColumns = some X.labels
  answers : ∀ m (X Z : Frame) outputs, (∀ i ∈ own, (m.slot i).inputColumns = some X.labels) →
    X.labels.all Z.has = true → List.Forall₂ (Answers m Z) leaves outputs →
    ∃ joined, List.Forall₂ (Answers m Z) nodes joined ∧
      joined.flatMap Frame.values = outputs.flatMap Frame.values

namespace StandFor

theorem nil (env : Surroundings) (S : List Nat) : StandFor env S [] [] [] where
  within := List.nil_subset S
  ids i := by simp [sites, Site.idsOf]
  fit _ _ := .steady (.pure ())
  columns _ _ _ _ _ _ _ hi := nomatch hi
  answers _ _ _ outputs _ _ h := ⟨outputs, h, rfl⟩

/-- A node stands for itself. -/
theorem leaf (env : Surroundings) (n : Node) (hn : n.site.ids ⊆ S) : StandFor env S [] [n] [n] where
  within i hi := hn (by simpa [sites, Site.idsOf] using hi)
  ids i := by simp
  fit X y := by
    intro w w' h
    rw [fitEach_single]
    exact (Plan.fit_follows env n.plan X y hn w w' h.tracks).mono
      (fun _ _ _ _ hv => ⟨hv.1, hv.2.mirrors⟩) fun _ _ hv => hv.mirrors
  columns _ _ _ _ _ _ _ hi := nomatch hi
  answers _ _ _ outputs _ _ h := ⟨outputs, h, rfl⟩

theorem append (h : StandFor env S own nodes leaves) (h' : StandFor env S own' nodes' leaves')
    (hown : ∀ i ∈ own, i ∉ own') (hS : ∀ i ∈ own, i ∉ S) :
    StandFor env S (own ++ own') (nodes ++ nodes') (leaves ++ leaves') where
  within := by
    rw [sites_append, Site.idsOf_append]
    exact List.append_subset.2 ⟨h.within, h'.within⟩
  ids i := by
    rw [sites_append, sites_append, Site.idsOf_append, Site.idsOf_append, List.mem_append,
      List.mem_append, List.mem_append, h.ids, h'.ids]
    tauto
  fit X y := by
    rw [fitEach_append, fitEach_append]
    exact (h.fit X y).bind fun _ => h'.fit X y
  columns X y w v hw hfit i hi := by
    rw [sites_append, Site.idsOf_append] at hw
    have hfirst : ∀ i ∈ Site.idsOf (sites nodes), i < w.memory.next := fun i hi =>
      hw i (List.mem_append_left _ hi)
    have hextend := fitEach_extends env X y hfirst
    rw [fitEach_append, Work.run_bind] at hfit
    rcases hu : fitEach env nodes X y w with ⟨e | _, u⟩
    · rw [hu] at hfit
      cases congrArg Prod.fst hfit
    rw [hu] at hfit hextend
    have hlast : ∀ i ∈ Site.idsOf (sites nodes'), i < u.memory.next := fun i hi =>
      Nat.lt_of_lt_of_le (hw i (List.mem_append_right _ hi)) hextend.next_le
    rcases List.mem_append.1 hi with hi | hi
    · -- The nodes that are fitted later leave the identities of the earlier ones alone.
      have hextend' := fitEach_extends env X y hlast
      change fitEach env nodes' X y u = (.ok (), v) at hfit
      rw [hfit] at hextend'
      have hother : i ∉ Site.idsOf (sites nodes') := by
        rw [h'.ids]
        exact fun hmem => hmem.elim (hown i hi) fun hmem => hS i hi (h'.within hmem)
      have htaken := hfirst i ((h.ids i).2 (.inl hi))
      rw [hextend'.slot_eq i (Nat.lt_of_lt_of_le htaken hextend.next_le) hother]
      exact h.columns X y w u hfirst hu i hi
    · exact h'.columns X y u v hlast hfit i hi
  answers m X Z outputs hcolumns hZ hanswers := by
    have hfirst := (List.forall₂_take_append outputs leaves leaves' hanswers.flip).flip
    have hlast := (List.forall₂_drop_append outputs leaves leaves' hanswers.flip).flip
    obtain ⟨us, hus, hvalues⟩ :=
      h.answers m X Z _ (fun i hi => hcolumns i (List.mem_append_left _ hi)) hZ hfirst
    obtain ⟨us', hus', hvalues'⟩ :=
      h'.answers m X Z _ (fun i hi => hcolumns i (List.mem_append_right _ hi)) hZ hlast
    refine ⟨us ++ us', List.rel_append hus hus', ?_⟩
    rw [List.flatMap_append, hvalues, hvalues', ← List.flatMap_append, List.take_append_drop]

/-- A parallel stands for what its parts stand for. -/
theorem group (h : StandFor env S own nodes leaves) (hparts : s.parts = sites nodes)
    (hself : s.id ∉ own) (hS : s.id ∉ S) (hne : leaves ≠ []) :
    StandFor env S (s.id :: own) [⟨.parallel (plans nodes), s⟩] leaves where
  within := h.within
  ids i := by
    rw [idsOf_parallel hparts, List.mem_cons, List.mem_cons, h.ids, or_assoc]
  fit X y := by
    intro w w' hw
    cases hy : alignTarget y X with
    | error e =>
      rw [fitEach_parallel env hparts, fitEach_refused hy hne]
      unfold Work.fitting
      rw [hy]
      exact ⟨rfl, hw⟩
    | ok y' =>
      rw [fitEach_parallel_run hy hparts]
      have hunchanged := Memory.Extends.refl [] w'.memory
      have hstart := hw.keep ⟨w.memory.extends_withInput_self s none, hunchanged⟩
        (fun i hi heq => hS (List.mem_singleton.1 heq ▸ hi)) (by simp)
      have hrun := h.fit X y { w with memory := w.memory.withInput s none } w' hstart
      revert hrun
      rcases fitEach env nodes X y { w with memory := w.memory.withInput s none }
        with ⟨e | _, v⟩ <;>
        rcases fitEach env leaves X y w' with ⟨e' | _, v'⟩ <;> intro hrun
      · exact hrun
      · exact hrun.elim
      · exact hrun.elim
      · exact ⟨rfl, hrun.2.keep
          ⟨v.memory.extends_withInput_self s (some X.labels), .refl [] v'.memory⟩
          (fun i hi heq => hS (List.mem_singleton.1 heq ▸ hi)) (by simp)⟩
  columns X y w v hw hfit i hi := by
    rw [idsOf_parallel hparts] at hw
    cases hy : alignTarget y X with
    | error e =>
      rw [fitEach_parallel env hparts] at hfit
      unfold Work.fitting at hfit
      rw [hy] at hfit
      cases congrArg Prod.fst hfit
    | ok y' =>
      rw [fitEach_parallel_run hy hparts] at hfit
      let started : Workspace := { w with memory := w.memory.withInput s none }
      have hstarted : started.memory.next = w.memory.next := Memory.next_update _ _ _
      have htaken : ∀ i ∈ Site.idsOf (sites nodes), i < started.memory.next := by
        intro i hi
        rw [hstarted]
        exact hw i (List.mem_cons_of_mem _ hi)
      have hextend := fitEach_extends env X y htaken
      rcases hu : fitEach env nodes X y started with ⟨e | _, u⟩
      · rw [hu] at hfit
        cases congrArg Prod.fst hfit
      · rw [hu] at hfit hextend
        obtain rfl := congrArg Prod.snd hfit
        have hid : s.id < u.memory.next := by
          refine Nat.lt_of_lt_of_le ?_ hextend.next_le
          rw [hstarted]
          exact hw s.id List.mem_cons_self
        rcases List.mem_cons.1 hi with rfl | hi
        · exact inputColumns_withInput hid
        · have hother : i ≠ s.id := fun heq => hself (heq ▸ hi)
          dsimp only
          rw [Memory.slot_withInput_of_ne hother]
          exact h.columns X y started u htaken hu i hi
  answers m X Z outputs hcolumns hZ hanswers := by
    obtain ⟨us, hus, hvalues⟩ := h.answers m X Z outputs
      (fun i hi => hcolumns i (List.mem_cons_of_mem _ hi)) hZ hanswers
    have hinput : m.inputColumns s = some X.labels := hcolumns s.id List.mem_cons_self
    have hanswer :=
      parallel_answers hparts (hasInput_of_eq hinput) (lacking_eq_nil hinput hZ) hus
    refine ⟨[Frame.sideBySide us Z], .cons ⟨hanswer, rfl⟩ .nil, ?_⟩
    rw [List.flatMap_cons, List.flatMap_nil, List.append_nil, Frame.values_sideBySide, hvalues]

theorem refl (env : Surroundings) (nodes : List Node) (h : Site.idsOf (sites nodes) ⊆ S) :
    StandFor env S [] nodes nodes := by
  induction nodes with
  | nil => exact .nil env S
  | cons n nodes ih =>
    obtain ⟨hfirst, hrest⟩ := List.append_subset.1 h
    exact (leaf env n hfirst).append (ih hrest) (by simp) (by simp)

/-- After a fit with success, whatever the leaves answer has the columns of the fit. -/
theorem has_columns {u : Workspace} (h : StandFor env S own nodes leaves) (hne : leaves ≠ [])
    (hS : ∀ i ∈ S, i < w.memory.next) (hfit : fitEach env nodes X y w = (.ok (), u))
    (hanswers : List.Forall₂ (Answers u.memory Z) leaves outputs) : X.labels.all Z.has = true := by
  have hrun := h.fit X y w w ⟨fun _ _ => rfl, fun _ _ _ _ h => h, hS, hS⟩
  rw [hfit] at hrun
  rcases hr : fitEach env leaves X y w with ⟨e | _, r⟩
  · rw [hr] at hrun
    exact hrun.elim
  · rw [hr] at hrun
    obtain ⟨n, hn, hcolumns⟩ := exists_columns (fun i hi => hS i (h.within hi)) hne hr
    have hid : n.site.id ∈ S :=
      h.within (Site.mem_idsOf.2 ⟨n.site, List.mem_map_of_mem hn, n.site.id_mem_ids⟩)
    have hsame : u.memory.inputColumns n.site = some X.labels := by
      rw [← hcolumns]
      unfold Memory.inputColumns
      rw [hrun.2.renamed n.site.id hid]
      rfl
    have hlacking := lacking_of_answers hanswers n hn
    unfold Memory.lacking at hlacking
    rw [hsame, Option.getD_some, List.filter_eq_nil_iff] at hlacking
    exact List.all_eq_true.2 fun l hl => by simpa using hlacking l hl

end StandFor

end Node

/-- Parallels inside parallels over some parts. -/
inductive Grouping where
  | part (n : Node)
  | group (name : Label) (parts : List Grouping)

namespace Grouping

mutual

/-- The innermost parts, in order. -/
def leaves : Grouping → List Node
  | .part n => [n]
  | .group _ gs => leavesAll gs

def leavesAll : List Grouping → List Node
  | [] => []
  | g :: gs => leaves g ++ leavesAll gs

end

mutual

def build : Grouping → Work Node
  | .part n => return n
  | .group name gs => do
    let nodes ← buildAll gs
    Node.parallel (nodes.map Part.node) name

def buildAll : List Grouping → Work (List Node)
  | [] => return []
  | g :: gs => do
    let n ← build g
    return n :: (← buildAll gs)

end

open Node

variable {env : Surroundings} {w v : Workspace} {n : Node} {nodes : List Node} {S : List Nat}

/-- What comes of building a grouping stands for the innermost parts. Its own identities are new. -/
structure Grouped (env : Surroundings) (S : List Nat) (w v : Workspace) (nodes leaves : List Node) :
    Prop where
  extend : Memory.Extends [] w.memory v.memory
  stand : ∃ own, StandFor env S own nodes leaves ∧
    ∀ i ∈ own, w.memory.next ≤ i ∧ i < v.memory.next

theorem Grouped.single (hn : n.site.ids ⊆ S) :
    Grouped env S w w [n] [n] :=
  ⟨.refl [] w.memory, [], .leaf env n hn, by simp⟩

theorem Grouped.append {u : Workspace} {leaves leaves' nodes' : List Node}
    (hS : ∀ i ∈ S, i < w.memory.next) (h : Grouped env S w u nodes leaves)
    (h' : Grouped env S u v nodes' leaves') :
    Grouped env S w v (nodes ++ nodes') (leaves ++ leaves') := by
  obtain ⟨own, hstand, hown⟩ := h.stand
  obtain ⟨own', hstand', hown'⟩ := h'.stand
  have hle := h.extend.next_le
  have hle' := h'.extend.next_le
  refine ⟨h.extend.trans h'.extend (by simp), own ++ own',
    hstand.append hstand' (fun i hi hi' => ?_) (fun i hi hi' => ?_), fun i hi => ?_⟩
  · exact Nat.not_le.2 (hown i hi).2 (hown' i hi').1
  · exact Nat.not_le.2 (hS i hi') (hown i hi).1
  · rcases List.mem_append.1 hi with hi | hi
    · exact ⟨(hown i hi).1, Nat.lt_of_lt_of_le (hown i hi).2 hle'⟩
    · exact ⟨Nat.le_trans hle (hown' i hi).1, (hown' i hi).2⟩

theorem Grouped.group {u : Workspace} {leaves : List Node} {name : Label}
    (hS : ∀ i ∈ S, i < w.memory.next) (h : Grouped env S w u nodes leaves) (hne : leaves ≠ [])
    (hbuild : Node.parallel (nodes.map Part.node) name u = (.ok n, v)) :
    Grouped env S w v [n] leaves := by
  obtain ⟨-, hplan, hsite, hext, hnext⟩ := composite_run .parallel hbuild
  obtain ⟨plan, s⟩ := n
  obtain rfl : plan = _ := hplan
  have hid : s.id = u.memory.next := congrArg Site.id hsite
  obtain ⟨own, hstand, hown⟩ := h.stand
  have hle := h.extend.next_le
  refine ⟨h.extend.trans hext (by simp), s.id :: own,
    hstand.group (congrArg Site.parts hsite) (fun hi => ?_) (fun hi => ?_) hne, fun i hi => ?_⟩
  · exact Nat.ne_of_lt (hown _ hi).2 hid
  · exact Nat.not_le.2 (hS _ hi) (hid ▸ hle)
  · rw [hnext]
    rcases List.mem_cons.1 hi with rfl | hi
    · exact ⟨hid ▸ hle, hid ▸ Nat.lt_succ_self _⟩
    · exact ⟨(hown i hi).1, Nat.lt_succ_of_lt (hown i hi).2⟩

mutual

theorem build_grouped (env : Surroundings) : ∀ (g : Grouping) {w v : Workspace} {n : Node},
    (∀ i ∈ S, i < w.memory.next) → Site.idsOf (sites g.leaves) ⊆ S → g.build w = (.ok n, v) →
      Grouped env S w v [n] g.leaves ∧ g.leaves ≠ []
  | .part k, w, v, n, hS, hleaves, hbuild => by
    obtain ⟨hn, rfl⟩ := Prod.mk.inj hbuild
    obtain rfl := Except.ok.inj hn
    refine ⟨.single ?_, List.cons_ne_nil _ _⟩
    simpa [leaves, sites, Site.idsOf] using hleaves
  | .group name gs, w, v, n, hS, hleaves, hbuild => by
    rw [build] at hbuild
    obtain ⟨nodes, u, hnodes, hparallel⟩ := Work.ok_of_bind hbuild
    obtain ⟨hgrouped, hne⟩ := buildAll_grouped env gs hS hleaves hnodes
    have hleaf := hne (composite_run .parallel hparallel).1
    exact ⟨hgrouped.group hS hleaf hparallel, hleaf⟩

theorem buildAll_grouped (env : Surroundings) : ∀ (gs : List Grouping) {w v : Workspace}
    {nodes : List Node}, (∀ i ∈ S, i < w.memory.next) →
    Site.idsOf (sites (leavesAll gs)) ⊆ S → buildAll gs w = (.ok nodes, v) →
      Grouped env S w v nodes (leavesAll gs) ∧ (nodes ≠ [] → leavesAll gs ≠ [])
  | [], w, v, nodes, hS, hleaves, hbuild => by
    obtain ⟨hn, rfl⟩ := Prod.mk.inj hbuild
    obtain rfl := Except.ok.inj hn
    exact ⟨⟨.refl [] w.memory, [], .nil env S, by simp⟩, fun h => absurd rfl h⟩
  | g :: gs, w, v, nodes, hS, hleaves, hbuild => by
    rw [leavesAll, sites_append, Site.idsOf_append] at hleaves
    obtain ⟨hfirst, hrest⟩ := List.append_subset.1 hleaves
    rw [buildAll] at hbuild
    obtain ⟨n, u, hn, hbuild⟩ := Work.ok_of_bind hbuild
    obtain ⟨ns, x, hns, hpure⟩ := Work.ok_of_bind hbuild
    obtain ⟨hnodes, rfl⟩ := Prod.mk.inj hpure
    obtain rfl := Except.ok.inj hnodes
    obtain ⟨hgrouped, hne⟩ := build_grouped env g hS hfirst hn
    have hS' : ∀ i ∈ S, i < u.memory.next := fun i hi =>
      Nat.lt_of_lt_of_le (hS i hi) hgrouped.extend.next_le
    obtain ⟨hgrouped', -⟩ := buildAll_grouped env gs hS' hrest hns
    exact ⟨hgrouped.append hS hgrouped', fun _ => List.append_ne_nil_of_left_ne_nil hne _⟩

end

/-- A grouping is fitted like its innermost parts, one after another, and then puts together what
they answer. -/
theorem Grouped.fit_eq {leaves : List Node} (h : Grouped env S w v [n] leaves) (hne : leaves ≠ [])
    (hS : ∀ i ∈ S, i < w.memory.next) (X : Frame) (y : Option Series) :
    let run := n.plan.fit env n.site X y v
    let each := fitEach env leaves X y w
    run.1 = each.1 ∧ (run.1 = .ok () → Memory.Mirrors id S run.2.memory each.2.memory ∧
      ∀ Z outputs, List.Forall₂ (Answers run.2.memory Z) leaves outputs →
        ∃ F, Answers run.2.memory Z n F ∧ F.values = outputs.flatMap Frame.values) := by
  obtain ⟨own, hstand, hown⟩ := h.stand
  have hS' : ∀ i ∈ S, i < v.memory.next := fun i hi =>
    Nat.lt_of_lt_of_le (hS i hi) h.extend.next_le
  have hstart : Memory.Mirrors id S v.memory w.memory :=
    ⟨fun i hi => h.extend.slot_eq i (hS i hi) (by simp), fun _ _ _ _ h => h, hS', hS⟩
  have hids : ∀ i ∈ Site.idsOf (sites [n]), i < v.memory.next := by
    intro i hi
    exact ((hstand.ids i).1 hi).elim (fun hi => (hown i hi).2) fun hi => hS' i (hstand.within hi)
  have hfit := hstand.fit X y v w hstart
  rw [fitEach_single] at hfit
  intro run each
  change Work.Matched _ _ run each at hfit
  rcases hrun : run with ⟨e | _, u⟩ <;> rcases heach : each with ⟨e' | _, r⟩ <;>
    rw [hrun, heach] at hfit
  · exact ⟨congrArg Except.error hfit.1, fun h => nomatch h⟩
  · exact hfit.elim
  · exact hfit.elim
  · refine ⟨rfl, fun _ => ⟨hfit.2, fun Z outputs hanswers => ?_⟩⟩
    have hsingle : fitEach env [n] X y v = (.ok (), u) := (fitEach_single env n X y).symm ▸ hrun
    have hZ := hstand.has_columns hne hS' hsingle hanswers
    obtain ⟨joined, hjoined, hvalues⟩ := hstand.answers u.memory X Z outputs
      (hstand.columns X y v u hids hsingle) hZ hanswers
    cases hjoined with
    | @cons _ F _ _ hF hnil =>
      cases hnil
      refine ⟨F, hF, ?_⟩
      rwa [List.flatMap_cons, List.flatMap_nil, List.append_nil] at hvalues

theorem regrouped {v' : Workspace} {n' : Node} {g g' : Grouping} (hleaves : g'.leaves = g.leaves)
    (hids : ∀ i ∈ Site.idsOf (sites g.leaves), i < w.memory.next) (hbuild : g.build w = (.ok n, v))
    (hbuild' : g'.build w = (.ok n', v')) (X y : Data) :
    (n.fit env X y v).1 = (n'.fit env X y v').1 ∧
      ((n.fit env X y v).1 = .ok () → ∀ Z outputs,
        List.Forall₂ (Answers (n.fit env X y v).2.memory Z) g.leaves outputs →
          ∃ F F', (n.transform (n.fit env X y v).2.memory (.frame Z)).outcome = .ok F ∧
            (n'.transform (n'.fit env X y v').2.memory (.frame Z)).outcome = .ok F' ∧
              F.values = outputs.flatMap Frame.values ∧
                F'.values = outputs.flatMap Frame.values) := by
  obtain ⟨hgrouped, hne⟩ := build_grouped env g hids (List.Subset.refl _) hbuild
  have hids' : Site.idsOf (sites g'.leaves) ⊆ Site.idsOf (sites g.leaves) := by
    rw [hleaves]
    exact List.Subset.refl _
  obtain ⟨hgrouped', -⟩ := build_grouped env g' hids hids' hbuild'
  rw [hleaves] at hgrouped'
  unfold Node.fit
  rcases X.toFrame with e | X
  · exact ⟨rfl, fun h => nomatch h⟩
  rcases y.toSeries with e | y
  · exact ⟨rfl, fun h => nomatch h⟩
  change (n.plan.fit env n.site X y v).1 = (n'.plan.fit env n'.site X y v').1 ∧
    ((n.plan.fit env n.site X y v).1 = .ok () → ∀ Z outputs,
      List.Forall₂ (Answers (n.plan.fit env n.site X y v).2.memory Z) g.leaves outputs →
        ∃ F F', (n.transform (n.plan.fit env n.site X y v).2.memory (.frame Z)).outcome = .ok F ∧
          (n'.transform (n'.plan.fit env n'.site X y v').2.memory (.frame Z)).outcome = .ok F' ∧
            F.values = outputs.flatMap Frame.values ∧ F'.values = outputs.flatMap Frame.values)
  obtain ⟨hresult, hok⟩ := hgrouped.fit_eq hne hids X y
  obtain ⟨hresult', hok'⟩ := hgrouped'.fit_eq hne hids X y
  refine ⟨hresult.trans hresult'.symm, fun hfit Z outputs hanswers => ?_⟩
  have hfit' := (hresult'.trans hresult.symm).trans hfit
  obtain ⟨hmirrors, htransform⟩ := hok hfit
  obtain ⟨hmirrors', htransform'⟩ := hok' hfit'
  obtain ⟨F, hF, hvalues⟩ := htransform Z outputs hanswers
  -- The leaves are the same after both fits.
  have hanswers' := answers_same
    (fun i hi => (hmirrors.renamed i hi).trans (hmirrors'.renamed i hi).symm)
    (List.Subset.refl _) hanswers
  obtain ⟨F', hF', hvalues'⟩ := htransform' Z outputs hanswers'
  exact ⟨F, F', hF.1, hF'.1, hvalues, hvalues'⟩

end Grouping

namespace Node

variable {env : Surroundings} {w v : Workspace} {n : Node} {nodes : List Node} {m : Memory}
  {s : Site} {Z : Frame} {outputs : List Frame}

/-- In any memory, a parallel that is fitted and lacks no columns concatenates. -/
theorem fitted_parallel_concatenates (hparts : s.parts = sites nodes)
    (hfitted : Node.isFitted ⟨.parallel (plans nodes), s⟩ m = true) (hlacking : m.lacking s Z = [])
    (h : List.Forall₂ (Answers m Z) nodes outputs)
    (htexts : ∀ f ∈ outputs, ∀ l ∈ f.labels, l.isText = true) :
    ∃ F, (Node.transform ⟨.parallel (plans nodes), s⟩ m (.frame Z)).outcome = .ok F ∧
      F.Concatenates outputs Z := by
  unfold isFitted at hfitted
  dsimp only at hfitted
  rw [Plan.isFitted, Bool.and_eq_true] at hfitted
  exact ⟨_, parallel_answers hparts hfitted.1 hlacking h, Frame.concatenates_sideBySide htexts Z⟩

/-- After a parallel was fitted, it answers every frame that all its parts answer. -/
theorem fit_parallel_answers {name : Label}
    (hids : ∀ i ∈ Site.idsOf (sites nodes), i < w.memory.next)
    (hbuild : parallel (nodes.map Part.node) name w = (.ok n, v)) (X : Frame) (y : Option Series)
    (hfit : (n.plan.fit env n.site X y v).1 = .ok ())
    (h : List.Forall₂ (Answers (n.plan.fit env n.site X y v).2.memory Z) nodes outputs) :
    (n.transform (n.plan.fit env n.site X y v).2.memory (.frame Z)).outcome =
      .ok (Frame.sideBySide outputs Z) := by
  obtain ⟨hne, hplan, hsite, hext, hnext⟩ := composite_run .parallel hbuild
  obtain ⟨plan, s⟩ := n
  obtain rfl : plan = _ := hplan
  have hid : s.id = w.memory.next := congrArg Site.id hsite
  have hparts : s.parts = sites nodes := congrArg Site.parts hsite
  have hself : s.id ∉ Site.idsOf (sites nodes) := fun hi =>
    Nat.lt_irrefl _ (hid ▸ hids s.id hi)
  have hstand : StandFor env (Site.idsOf (sites nodes)) [s.id] [⟨.parallel (plans nodes), s⟩]
      nodes :=
    (StandFor.refl env nodes (List.Subset.refl _)).group hparts (by simp) hself hne
  have htaken : ∀ i ∈ Site.idsOf (sites nodes), i < v.memory.next := fun i hi =>
    Nat.lt_of_lt_of_le (hids i hi) hext.next_le
  have hall : ∀ i ∈ Site.idsOf (sites [⟨.parallel (plans nodes), s⟩]), i < v.memory.next := by
    intro i hi
    rw [idsOf_parallel hparts] at hi
    rcases List.mem_cons.1 hi with rfl | hi
    · rw [hid, hnext]
      exact Nat.lt_succ_self _
    · exact htaken i hi
  have hsingle := fitEach_single env ⟨.parallel (plans nodes), s⟩ X y
  dsimp only at hsingle hfit h ⊢
  rcases hrun : Plan.fit env (.parallel (plans nodes)) s X y v with ⟨e | _, u⟩
  · rw [hrun] at hfit
    cases hfit
  · rw [hrun] at h
    rw [← hsingle] at hrun
    have hinput : u.memory.inputColumns s = some X.labels :=
      hstand.columns X y v u hall hrun s.id List.mem_cons_self
    have hZ := hstand.has_columns hne htaken hrun h
    exact parallel_answers hparts (hasInput_of_eq hinput) (lacking_eq_nil hinput hZ) h

/-- A parallel is the concatenation of its parts, whatever the grouping. It answers every frame that
all its parts answer, after it was fitted, and in any memory where it is fitted and lacks none of
its columns: with the columns of the outputs in order, their values unchanged, over the row labels of the frame,
under their labels made distinct. Groupings of the same parts are fitted alike, and then answer with
the same values in the same order. Parts may share nodes. -/
theorem parallel_concatenates (env : Surroundings) :
    (∀ (w v : Workspace) (nodes : List Node) (name : Label) (n : Node),
      (∀ i ∈ Site.idsOf (sites nodes), i < w.memory.next) →
      parallel (nodes.map Part.node) name w = (.ok n, v) →
      ∀ X y : Data, (n.fit env X y v).1 = .ok () → ∀ (Z : Frame) (outputs : List Frame),
        List.Forall₂ (Answers (n.fit env X y v).2.memory Z) nodes outputs →
        (∀ f ∈ outputs, ∀ l ∈ f.labels, l.isText = true) →
          ∃ F, (n.transform (n.fit env X y v).2.memory (.frame Z)).outcome = .ok F ∧
            F.Concatenates outputs Z) ∧
    (∀ (m : Memory) (s : Site) (nodes : List Node) (Z : Frame) (outputs : List Frame),
      s.parts = sites nodes → Node.isFitted ⟨.parallel (plans nodes), s⟩ m = true →
      m.lacking s Z = [] → List.Forall₂ (Answers m Z) nodes outputs →
      (∀ f ∈ outputs, ∀ l ∈ f.labels, l.isText = true) →
        ∃ F, (Node.transform ⟨.parallel (plans nodes), s⟩ m (.frame Z)).outcome = .ok F ∧
          F.Concatenates outputs Z) ∧
    ∀ (w v v' : Workspace) (g g' : Grouping) (n n' : Node), g'.leaves = g.leaves →
      (∀ i ∈ Site.idsOf (sites g.leaves), i < w.memory.next) →
      g.build w = (.ok n, v) → g'.build w = (.ok n', v') → ∀ X y : Data,
        (n.fit env X y v).1 = (n'.fit env X y v').1 ∧
          ((n.fit env X y v).1 = .ok () → ∀ (Z : Frame) (outputs : List Frame),
            List.Forall₂ (Answers (n.fit env X y v).2.memory Z) g.leaves outputs →
              ∃ F F', (n.transform (n.fit env X y v).2.memory (.frame Z)).outcome = .ok F ∧
                (n'.transform (n'.fit env X y v').2.memory (.frame Z)).outcome = .ok F' ∧
                  F.values = outputs.flatMap Frame.values ∧
                    F'.values = outputs.flatMap Frame.values) := by
  refine ⟨fun w v nodes name n hids hbuild X y hfit Z outputs h htexts => ?_,
    fun m s nodes Z outputs hparts hfitted hlacking h htexts =>
      fitted_parallel_concatenates hparts hfitted hlacking h htexts,
    fun w v v' g g' n n' hleaves hids hbuild hbuild' X y =>
      Grouping.regrouped hleaves hids hbuild hbuild' X y⟩
  refine ⟨_, ?_, Frame.concatenates_sideBySide htexts Z⟩
  unfold Node.fit at hfit h ⊢
  rcases hX : X.toFrame with e | X
  · rw [hX] at hfit
    cases hfit
  rcases hy : y.toSeries with e | y
  · rw [hX, hy] at hfit
    cases hfit
  rw [hX, hy] at hfit h
  exact fit_parallel_answers hids hbuild X y hfit h

/-- A frame twice from one node and once from another: side by side, and in two groupings. -/
theorem parallel_concatenates_shared :
    let leaf : Nat → Node := fun i => ⟨.element .identity, .mk i []⟩
    let w : Workspace := ⟨⟨#[.fresh (.text "a"), .fresh (.text "b")]⟩, [], false⟩
    let env : Surroundings := ⟨.error (.unusable .value), .builtin⟩
    let Z : Frame := ⟨[.int 0, .int 0], [⟨.text "x", .int64, [.int 1, .int 2]⟩]⟩
    let y : Data := .plain .null
    let beside : Nat → List Node → Node := fun i nodes =>
      ⟨.parallel (plans nodes), .mk i (sites nodes)⟩
    let n := beside 2 [leaf 0, leaf 0, leaf 1]
    let m : Memory := ⟨#[⟨.text "a", some [], .nothing⟩, ⟨.text "b", some [], .nothing⟩,
      ⟨.text "par", some [.text "x"], .nothing⟩]⟩
    let v : Workspace :=
      ⟨⟨#[.fresh (.text "a"), .fresh (.text "b"), .fresh (.text "par")]⟩, [], false⟩
    let g : Grouping := .group .null [.part (leaf 0), .group .null [.part (leaf 0), .part (leaf 1)]]
    let g' : Grouping :=
      .group .null [.group .null [.part (leaf 0), .part (leaf 0)], .part (leaf 1)]
    let k := beside 3 [leaf 0, beside 2 [leaf 0, leaf 1]]
    let k' := beside 3 [beside 2 [leaf 0, leaf 0], leaf 1]
    let u : Workspace :=
      ⟨⟨#[.fresh (.text "a"), .fresh (.text "b"), .fresh (.text "par"), .fresh (.text "par")]⟩, [],
        false⟩
    (∃ F, (n.transform (n.fit env (.frame Z) y v).2.memory (.frame Z)).outcome = .ok F ∧
      F.Concatenates [Z, Z, Z] Z) ∧
    (∃ F, (n.transform m (.frame Z)).outcome = .ok F ∧ F.Concatenates [Z, Z, Z] Z) ∧
    g.build w = (.ok k, u) ∧ g'.build w = (.ok k', u) ∧
    ∃ F F', (k.transform (k.fit env (.frame Z) y u).2.memory (.frame Z)).outcome = .ok F ∧
      (k'.transform (k'.fit env (.frame Z) y u).2.memory (.frame Z)).outcome = .ok F' ∧
        F.values = F'.values := by
  -- The abbreviations are written out, since the memories after the fits are computed.
  dsimp only
  obtain ⟨hflat, hany, hgrouped⟩ := parallel_concatenates ⟨.error (.unusable .value), .builtin⟩
  refine ⟨hflat ⟨⟨#[.fresh (.text "a"), .fresh (.text "b")]⟩, [], false⟩ _
    [⟨.element .identity, .mk 0 []⟩, ⟨.element .identity, .mk 0 []⟩, ⟨.element .identity, .mk 1 []⟩]
    .null _ (by decide) rfl _ _ rfl _ _ ?_ (by decide),
    hany _ (.mk 2 [.mk 0 [], .mk 0 [], .mk 1 []])
      [⟨.element .identity, .mk 0 []⟩, ⟨.element .identity, .mk 0 []⟩,
        ⟨.element .identity, .mk 1 []⟩] _ _ rfl rfl rfl ?_ (by decide), rfl, rfl, ?_⟩
  · exact .cons ⟨rfl, rfl⟩ (.cons ⟨rfl, rfl⟩ (.cons ⟨rfl, rfl⟩ .nil))
  · exact .cons ⟨rfl, rfl⟩ (.cons ⟨rfl, rfl⟩ (.cons ⟨rfl, rfl⟩ .nil))
  · obtain ⟨F, F', hF, hF', hvalues, hvalues'⟩ := (hgrouped
      ⟨⟨#[.fresh (.text "a"), .fresh (.text "b")]⟩, [], false⟩ _ _
      (.group .null [.part ⟨.element .identity, .mk 0 []⟩,
        .group .null [.part ⟨.element .identity, .mk 0 []⟩, .part ⟨.element .identity, .mk 1 []⟩]])
      (.group .null [.group .null [.part ⟨.element .identity, .mk 0 []⟩,
        .part ⟨.element .identity, .mk 0 []⟩], .part ⟨.element .identity, .mk 1 []⟩])
      _ _ rfl (by decide) rfl rfl
      (.frame ⟨[.int 0, .int 0], [⟨.text "x", .int64, [.int 1, .int 2]⟩]⟩) (.plain .null)).2 rfl ⟨[.int 0, .int 0], [⟨.text "x", .int64, [.int 1, .int 2]⟩]⟩ _
      (.cons ⟨rfl, rfl⟩ (.cons ⟨rfl, rfl⟩ (.cons ⟨rfl, rfl⟩ .nil)))
    exact ⟨F, F', hF, hF', hvalues.trans hvalues'.symm⟩

end Node
end ColumnFlow
