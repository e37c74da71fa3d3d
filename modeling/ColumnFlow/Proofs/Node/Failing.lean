import ColumnFlow.Node.Elements
import ColumnFlow.Pipeline
import ColumnFlow.Proofs.Frame.Alignment
import ColumnFlow.Proofs.Frame.Labels
import ColumnFlow.Proofs.Node.Keeping

/-!
# Fits that fail

A fit that fails after its inputs were accepted leaves a node that refuses every question, whatever
the node and its parts had learned before: the node has forgotten its columns, nothing that happens
inside the fit brings them back, and a node without columns counts as not fitted. Parts may be
shared between nodes; only the node itself must not stand inside its own parts.
-/
namespace ColumnFlow

/-- Where a call comes in: at the node or at an executor in front of it. -/
inductive Door where
  | node
  | executor

namespace Door

/-- The features and the target that a fit works with, after coercion, checks and alignment. -/
def inputs : Door → Data → Data → Except Failure (Frame × Option Series)
  | .node, X, y => do
    let frame ← X.toFrame
    return (frame, ← y.toTarget frame)
  | .executor, X, y => do
    let frame ← Executor.check X (some y)
    return (frame, ← y.toTarget frame)

def fit (env : Surroundings) (n : Node) (X y : Data) : Door → Work Unit
  | .node => n.fit env X y
  | .executor => Executor.fit env n X y

/-- Whether a question gets through to the node. -/
def Admits : Door → Data → Prop
  | .node, _ => True
  | .executor, Z => ∃ frame, Executor.check Z none = .ok frame

def transform (n : Node) (Z : Data) : Door → Work Frame
  | .node => do n.transform (← Work.memory) Z
  | .executor => Executor.transform n Z

def predict (n : Node) (Z : Data) : Door → Work Series
  | .node => do n.predict (← Work.memory) Z
  | .executor => Executor.predict n Z

end Door

/-- The node of a site has forgotten its columns, and its tree has its place in the memory. -/
structure Memory.Forgot (s : Site) (m : Memory) : Prop where
  taken : ∀ i ∈ s.ids, i < m.next
  columns : m.inputColumns s = none

namespace Memory.Forgot

variable {s : Site} {m m' : Memory} {S : List Nat}

theorem extend (h : Forgot s m) (hm : Extends S m m') (hs : s.id ∉ S) : Forgot s m' where
  taken i hi := Nat.lt_of_lt_of_le (h.taken i hi) hm.next_le
  columns := by
    have hslot := hm.slot_eq s.id (h.taken s.id s.id_mem_ids) hs
    have hcolumns := h.columns
    unfold inputColumns at hcolumns ⊢
    rw [hslot, hcolumns]

theorem lasting (s : Site) : Lasting (Forgot s) := fun _ _ hm h =>
  h.extend hm List.not_mem_nil

theorem isFitted_eq_false (p : Plan) (h : Forgot s m) : p.isFitted m s = false := by
  have hinput : m.hasInput s = false := by
    unfold hasInput
    rw [h.columns]
    rfl
  cases p <;> simp only [Plan.isFitted, hinput, Bool.false_and]

end Memory.Forgot

namespace Memory

theorem Forgot.withLearned {s : Site} {m : Memory} (h : Forgot s m) (l : Learned) :
    Forgot s (m.withLearned s l) where
  taken i hi := Nat.lt_of_lt_of_le (h.taken i hi) (extends_withLearned m s l).next_le
  columns := by
    have hslot : (m.withLearned s l).slot s.id = { m.slot s.id with learned := l } :=
      slot_update_self (h.taken s.id s.id_mem_ids)
    have hcolumns := h.columns
    unfold inputColumns at hcolumns ⊢
    rw [hslot, hcolumns]

theorem forgot_withInput {s : Site} {m : Memory} (h : ∀ i ∈ s.ids, i < m.next) :
    Forgot s (m.withInput s none) where
  taken i hi := Nat.lt_of_lt_of_le (h i hi) (extends_withInput m s none).next_le
  columns := by
    unfold inputColumns
    rw [slot_withInput_self (h s.id s.id_mem_ids)]

end Memory

namespace Work

variable {s : Site} {X : Frame} {y : Option Series} {body : Option Series → Work Unit}
  {w : Workspace} {e : Failure}

theorem fitting_error (h : (fitting s X y body w).1 = .error e) :
    (alignTarget y X = .error e ∧ (fitting s X y body w).2 = w) ∨
      ∃ target, (fitting s X y body w).2 =
        (body target { w with memory := w.memory.withInput s none }).2 := by
  unfold fitting at h ⊢
  cases halign : alignTarget y X with
  | error e' =>
    rw [halign] at h
    obtain rfl : e' = e := Except.error.inj h
    exact .inl ⟨rfl, rfl⟩
  | ok target =>
    refine .inr ⟨target, ?_⟩
    rw [halign, run_ok_bind, run_setInput_bind, run_bind] at h
    rw [run_ok_bind, run_setInput_bind, run_bind]
    rcases hrun : body target { w with memory := w.memory.withInput s none } with ⟨_ | _, v⟩
    · rfl
    · rw [hrun] at h
      cases h

end Work

namespace Plan

variable {s : Site} {w : Workspace}

/-- A fit fails because the target does not fit the features, or it leaves a node that has
forgotten its columns. -/
theorem fit_forgets (env : Surroundings) (p : Plan) (X : Frame) (y : Option Series) {e : Failure}
    (hroot : ∀ q ∈ (Node.mk p s).parts, s.id ∉ q.site.ids) (htaken : ∀ i ∈ s.ids, i < w.memory.next)
    (h : (fit env p s X y w).1 = .error e) :
    (alignTarget y X = .error e ∧ (fit env p s X y w).2.memory = w.memory) ∨
      Memory.Forgot s (fit env p s X y w).2.memory := by
  have hown : ∀ l, Work.Keeps (Memory.Forgot s) (Work.setLearned s l) := by
    intro l w hw
    rw [Work.run_setLearned]
    exact hw.withLearned l
  -- A part writes to its own tree, where the node does not stand.
  have hparts : ∀ q ∈ (Node.mk p s).parts, ∀ X y,
      Work.Keeps (Memory.Forgot s) (fit env q.plan q.site X y) := by
    intro q hq X y w hw
    refine hw.extend (fit_extends env q.plan X y fun i hi => hw.taken i ?_) (hroot q hq)
    exact Node.ids_of_mem_parts hq hi
  obtain ⟨body, hfit, hbody⟩ := exists_body_keeps (Memory.Forgot.lasting s) env p s X
    (fun _ hm => hm.taken) hown hparts
  rw [hfit] at h ⊢
  rcases Work.fitting_error h with ⟨halign, hsame⟩ | ⟨target, hrun⟩
  · exact .inl ⟨halign, by rw [hsame]⟩
  · right
    rw [hrun]
    exact hbody target _ (Memory.forgot_withInput htaken)

theorem mapM_text_ok {m : Memory} {t : Plan} {ss : List Site}
    (h : ∀ s ∈ ss, ∃ x, t.text m s = .ok x) : ∃ xs, (ss.mapM fun s => text m t s) = .ok xs := by
  induction ss with
  | nil => exact ⟨[], rfl⟩
  | cons s ss ih =>
    obtain ⟨x, hx⟩ := h s List.mem_cons_self
    obtain ⟨xs, hxs⟩ := ih fun r hr => h r (List.mem_cons_of_mem _ hr)
    exact ⟨x :: xs, by rw [List.mapM_cons, hx, hxs]; rfl⟩

theorem texts_ok {m : Memory} {ps : List Plan} {ss : List Site}
    (ih : ∀ p ∈ ps, ∀ s : Site, (∀ i ∈ s.ids, (m.slot i).name.isText = true) →
      ∃ t, p.text m s = .ok t)
    (h : ∀ i ∈ Site.idsOf ss, (m.slot i).name.isText = true) : ∃ ts, texts m ps ss = .ok ts := by
  induction ps generalizing ss with
  | nil => exact ⟨[], by simp only [texts]⟩
  | cons p ps ihps =>
    cases ss with
    | nil => exact ⟨[], by simp only [texts]⟩
    | cons s ss =>
      simp only [Site.idsOf, List.mem_append] at h
      obtain ⟨t, ht⟩ := ih p List.mem_cons_self s fun i hi => h i (.inl hi)
      obtain ⟨ts, hts⟩ := ihps (fun q hq => ih q (List.mem_cons_of_mem _ hq)) fun i hi =>
        h i (.inr hi)
      exact ⟨t :: ts, by simp only [texts, ht, hts]; rfl⟩

theorem text_ok {m : Memory} (p : Plan) {s : Site}
    (h : ∀ i ∈ s.ids, (m.slot i).name.isText = true) : ∃ t, p.text m s = .ok t := by
  induction p using Plan.induction generalizing s with
  | transformer t | learner l | element e =>
    obtain ⟨name, hname⟩ := Labels.exists_text (h s.id s.id_mem_ids)
    simp only [text, Memory.text, Memory.label, hname]
    exact ⟨name, rfl⟩
  | sequential ps ih | parallel ps ih | vote ps ih | best ps policy ih =>
    obtain ⟨ts, hts⟩ := texts_ok (fun p hp _ => ih p hp) fun i hi =>
      h i (Site.mem_ids_of_mem_idsOf_parts hi)
    exact ⟨_, by simp only [text, hts]; rfl⟩
  | stack t ps settings iht ih =>
    have hrest : ∀ i ∈ Site.idsOf s.rest, (m.slot i).name.isText = true := fun i hi =>
      h i (Site.mem_ids_of_mem_idsOf_rest hi)
    obtain ⟨ts, hts⟩ := texts_ok (fun p hp _ => ih p hp) hrest
    exact ⟨_, by simp only [text, hts]; rfl⟩
  | bagging t settings ih =>
    have hmembers : ∀ r ∈ s.rest, ∃ x, t.text m r = .ok x := fun r hr => ih fun i hi =>
      h i (Site.mem_ids_of_mem_idsOf_rest (Site.mem_idsOf.2 ⟨r, hr, hi⟩))
    obtain ⟨ts, hts⟩ := mapM_text_ok hmembers
    exact ⟨_, by simp only [text, hts]; rfl⟩

end Plan

namespace Door

variable {env : Surroundings} {n : Node} {w : Workspace} {X y Z : Data} {door : Door} {e : Failure}

theorem memory_transform (n : Node) (Z : Data) (door : Door) (w : Workspace) :
    (door.transform n Z w).2.memory = w.memory := by
  cases door with
  | node => exact ((Work.Steady.logged (n.transform w.memory Z)) w w).2
  | executor =>
    have hask : Work.Keeps (· = w.memory) (Executor.transform n Z) :=
      .bind (.steady (.except _)) fun _ => .reading fun m => .steady (.logged _)
    exact hask w rfl

theorem memory_predict (n : Node) (Z : Data) (door : Door) (w : Workspace) :
    (door.predict n Z w).2.memory = w.memory := by
  cases door with
  | node => exact ((Work.Steady.logged (n.predict w.memory Z)) w w).2
  | executor =>
    have hask : Work.Keeps (· = w.memory) (Executor.predict n Z) := by
      refine .bind (fun v hv => (memory_transform n Z .executor v).trans hv) fun output => ?_
      cases output.firstColumn? with
      | none => exact .steady (.throw _)
      | some s => exact .steady (.pure s)
    exact hask w rfl

/-- A fit at the node fits its tree or refuses its inputs. -/
theorem fit_node (env : Surroundings) (n : Node) (X y : Data) (w : Workspace) :
    (∃ F target, X.toFrame = .ok F ∧ y.toSeries = .ok target ∧
        n.fit env X y w = n.plan.fit env n.site F target w) ∨
      ∃ e, node.inputs X y = .error e ∧ n.fit env X y w = (.error e, w) := by
  simp only [Node.fit, inputs, Data.toTarget]
  cases hX : X.toFrame with
  | error e => exact .inr ⟨e, rfl, rfl⟩
  | ok F =>
    cases hy : y.toSeries with
    | error e => exact .inr ⟨e, rfl, rfl⟩
    | ok target => exact .inl ⟨F, target, rfl, rfl, rfl⟩

/-- A fit at an executor is a fit at its node once its checks have passed. -/
theorem fit_executor (env : Surroundings) (n : Node) (X y : Data) (w : Workspace) :
    (∃ F, Executor.check X (some y) = .ok F ∧
        Executor.fit env n X y w = n.fit env (.frame F) y w) ∨
      ∃ e, (executor.inputs X y = .error e ∨ n.text w.memory = .error e) ∧
        Executor.fit env n X y w = (.error e, w) := by
  simp only [Executor.fit, inputs]
  cases hX : Executor.check X (some y) with
  | error e => exact .inr ⟨e, .inl rfl, rfl⟩
  | ok F =>
    rw [Work.run_ok_bind, Work.run_memory_bind]
    cases htext : n.text w.memory with
    | error e => exact .inr ⟨e, .inr rfl, rfl⟩
    | ok t => exact .inl ⟨F, rfl, rfl⟩

theorem fit_extends (env : Surroundings) (n : Node) (X y : Data) (door : Door)
    (h : ∀ i ∈ n.site.ids, i < w.memory.next) :
    Memory.Extends n.site.ids w.memory (door.fit env n X y w).2.memory := by
  have hnode : ∀ X, Memory.Extends n.site.ids w.memory (n.fit env X y w).2.memory := by
    intro X
    rcases fit_node env n X y w with ⟨F, target, -, -, hrun⟩ | ⟨e, -, hrun⟩ <;> rw [hrun]
    · exact Plan.fit_extends env n.plan F target h
    · exact .refl _ _
  cases door with
  | node => exact hnode X
  | executor =>
    change Memory.Extends _ _ (Executor.fit env n X y w).2.memory
    rcases fit_executor env n X y w with ⟨F, -, hrun⟩ | ⟨e, -, hrun⟩ <;> rw [hrun]
    · exact hnode (.frame F)
    · exact .refl _ _

/-- A fit fails because its inputs are refused or the node cannot be shown, or it leaves a node
that has forgotten its columns. -/
theorem fit_forgets (hroot : ∀ q ∈ n.parts, n.site.id ∉ q.site.ids)
    (htaken : ∀ i ∈ n.site.ids, i < w.memory.next)
    (h : (door.fit env n X y w).1 = .error e) :
    ((door.inputs X y = .error e ∨ n.text w.memory = .error e) ∧
        (door.fit env n X y w).2.memory = w.memory) ∨
      Memory.Forgot n.site (door.fit env n X y w).2.memory := by
  have hnode : ∀ X, (n.fit env X y w).1 = .error e →
      (node.inputs X y = .error e ∧ (n.fit env X y w).2.memory = w.memory) ∨
        Memory.Forgot n.site (n.fit env X y w).2.memory := by
    intro X h
    rcases fit_node env n X y w with ⟨F, target, hX, hy, hrun⟩ | ⟨e', hin, hrun⟩ <;>
      rw [hrun] at h ⊢
    · refine (Plan.fit_forgets env n.plan F target hroot htaken h).imp_left fun hrefused => ?_
      refine ⟨?_, hrefused.2⟩
      simp only [inputs, hX]
      change (y.toTarget F >>= fun y => Except.ok (F, y)) = .error e
      rw [Data.toTarget_refused hy hrefused.1]
      rfl
    · obtain rfl : e' = e := Except.error.inj h
      exact .inl ⟨hin, rfl⟩
  cases door with
  | node => exact (hnode X h).imp_left fun hrefused => ⟨.inl hrefused.1, hrefused.2⟩
  | executor =>
    change (Executor.fit env n X y w).1 = .error e at h
    change _ ∧ (Executor.fit env n X y w).2.memory = _ ∨
      Memory.Forgot _ (Executor.fit env n X y w).2.memory
    rcases fit_executor env n X y w with ⟨F, hX, hrun⟩ | ⟨e', hrefused, hrun⟩ <;> rw [hrun] at h ⊢
    · refine (hnode (.frame F) h).imp_left fun hin => ⟨.inl ?_, hin.2⟩
      have hinputs : executor.inputs X y = node.inputs (.frame F) y := by
        simp only [inputs, hX]
        rfl
      rw [hinputs, hin.1]
    · obtain rfl : e' = e := Except.error.inj h
      exact .inl ⟨hrefused, rfl⟩

/-- A node that has forgotten its columns refuses every question that gets through to it. -/
theorem refuses (h : Memory.Forgot n.site w.memory) (hZ : door.Admits Z) :
    (door.transform n Z w).1 = .error (.notFitted (n.label w.memory)) ∧
      (door.predict n Z w).1 = .error (.notFitted (n.label w.memory)) := by
  have hfitted : n.isFitted w.memory = false := h.isFitted_eq_false n.plan
  have htransform : ∀ Z, n.transform w.memory Z = throw (.notFitted (n.label w.memory)) := by
    intro Z
    unfold Node.transform
    rw [hfitted]
    rfl
  have hpredict : n.predict w.memory Z = throw (.notFitted (n.label w.memory)) := by
    unfold Node.predict
    rw [hfitted]
    rfl
  cases door with
  | node =>
    simp only [transform, predict, Work.run_memory_bind, htransform, hpredict]
    exact ⟨rfl, rfl⟩
  | executor =>
    obtain ⟨F, hF⟩ := hZ
    have hrun : Executor.transform n Z w =
        (liftM (throw (.notFitted (n.label w.memory)) : Logged Frame) : Work Frame) w := by
      unfold Executor.transform
      rw [hF, Work.run_ok_bind, Work.run_memory_bind, htransform]
    simp only [transform, predict, Executor.predict]
    constructor
    · rw [hrun]
      rfl
    · rw [Work.run_bind, hrun]
      rfl

end Door

namespace Node

/-- What can happen to a node as long as no fit of it succeeds: nodes are asked for answers, its
own fits fail, and trees are fitted that it does not stand in. -/
inductive Unserved (n : Node) : Workspace → Workspace → Prop
  | start (w : Workspace) : Unserved n w w
  | transform {w v : Workspace} (k : Node) (Z : Data) (door : Door) :
    Unserved n w v → Unserved n w (door.transform k Z v).2
  | predict {w v : Workspace} (k : Node) (Z : Data) (door : Door) :
    Unserved n w v → Unserved n w (door.predict k Z v).2
  | fails {w v : Workspace} {env : Surroundings} {X y : Data} {door : Door} {e : Failure} :
    Unserved n w v → (door.fit env n X y v).1 = .error e → Unserved n w (door.fit env n X y v).2
  | others {w v : Workspace} (k : Node) (env : Surroundings) (X y : Data) (door : Door) :
    Unserved n w v → (∀ i ∈ k.site.ids, i < v.memory.next) → n.site.id ∉ k.site.ids →
      Unserved n w (door.fit env k X y v).2

variable {n : Node} {w v : Workspace}

/-- As long as no fit of it succeeds, a node that has forgotten its columns does not get them
back. -/
theorem Unserved.forgot (h : n.Unserved w v) (hroot : ∀ q ∈ n.parts, n.site.id ∉ q.site.ids)
    (hw : Memory.Forgot n.site w.memory) : Memory.Forgot n.site v.memory := by
  induction h with
  | start => exact hw
  | transform k Z door _ ih =>
    rw [Door.memory_transform]
    exact ih
  | predict k Z door _ ih =>
    rw [Door.memory_predict]
    exact ih
  | fails _ hfail ih =>
    rcases Door.fit_forgets hroot ih.taken hfail with ⟨-, hsame⟩ | hforgot
    · rw [hsame]
      exact ih
    · exact hforgot
  | others k env X y door _ htaken hk ih =>
    exact ih.extend (Door.fit_extends env k X y door htaken) hk

/-- A fit that fails can never be mistaken for one that succeeded. It failed on its inputs and
changed nothing, or from then on, until a fit of the node succeeds, the node counts as not fitted
and refuses every question; it does not matter what the node and its parts had learned before. -/
theorem failed_fit_unserved (n : Node) (w : Workspace) (env : Surroundings) (X y : Data)
    (door : Door) (e : Failure) (hroot : ∀ q ∈ n.parts, n.site.id ∉ q.site.ids)
    (htaken : ∀ i ∈ n.site.ids, i < w.memory.next)
    (hnames : ∀ i ∈ n.site.ids, (w.memory.slot i).name.isText = true)
    (hfail : (door.fit env n X y w).1 = .error e) :
    (door.inputs X y = .error e ∧ (door.fit env n X y w).2.memory = w.memory) ∨
      ∀ v, n.Unserved (door.fit env n X y w).2 v →
        n.isFitted v.memory = false ∧ ∀ (door : Door) (Z : Data), door.Admits Z →
          (door.transform n Z v).1 = .error (.notFitted (n.label v.memory)) ∧
            (door.predict n Z v).1 = .error (.notFitted (n.label v.memory)) := by
  rcases Door.fit_forgets hroot htaken hfail with ⟨hrefused, hsame⟩ | hforgot
  · left
    obtain ⟨t, ht⟩ : ∃ t, n.text w.memory = .ok t := Plan.text_ok n.plan hnames
    rw [ht] at hrefused
    exact ⟨hrefused.resolve_right (fun h => nomatch h), hsame⟩
  · right
    intro v hv
    have hv := hv.forgot hroot hforgot
    exact ⟨hv.isFitted_eq_false n.plan, fun door Z hZ => Door.refuses hv hZ⟩

/-- A sequence that was fitted once, and then on rows without the column that its second part looks
at. -/
theorem failed_fit_unserved_sequence :
    let keep : Transformer := ⟨"Keep", [], fun _ => return some .identity⟩
    let n : Node := ⟨.sequential [.transformer keep, .element (Element.poisoned (.text "x") true)],
      .mk 2 [.mk 0 [], .mk 1 []]⟩
    let new : Workspace :=
      ⟨⟨#[.fresh (.text "a"), .fresh (.text "b"), .fresh (.text "seq")]⟩, [], false⟩
    let env : Surroundings := ⟨.error (.unusable .value), .builtin⟩
    let X : Data := .frame ⟨[.int 0], [⟨.text "x", .int64, [.int 2]⟩]⟩
    let X' : Data := .frame ⟨[.int 0], []⟩
    let w := (Door.node.fit env n X (.plain .null) new).2
    let failed := Door.executor.fit env n X' (.plain .null) w
    n.isFitted w.memory = true ∧ failed.1.toBool = false ∧
      ∀ v, n.Unserved failed.2 v →
        n.isFitted v.memory = false ∧ ∀ (door : Door) (Z : Data), door.Admits Z →
          (door.transform n Z v).1 = .error (.notFitted (n.label v.memory)) ∧
            (door.predict n Z v).1 = .error (.notFitted (n.label v.memory)) := by
  intro keep n new env X X' w failed
  have hfail : failed.1.toBool = false := by decide
  have hnames : ∀ i ∈ n.site.ids, (w.memory.slot i).name.isText = true := by decide
  refine ⟨by decide, hfail, ?_⟩
  cases hrun : failed.1 with
  | ok _ =>
    rw [hrun] at hfail
    cases hfail
  | error e =>
    have hresult := failed_fit_unserved n w env X' (.plain .null) .executor e (by decide)
      (by decide) hnames hrun
    exact hresult.resolve_left fun h => nomatch h.1

end Node
end ColumnFlow
