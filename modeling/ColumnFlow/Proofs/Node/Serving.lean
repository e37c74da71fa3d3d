import ColumnFlow.Proofs.CrossValidation.Independence
import ColumnFlow.Proofs.Node.Choosing
import ColumnFlow.Proofs.Node.Failing
import ColumnFlow.Proofs.Node.History
import ColumnFlow.Proofs.Node.Settling

/-!
# A choice serves its winner

A choice scores copies of its candidates, which leaves the candidates as they are, and then fits one
of them on all rows. If that candidate is a tree of its own, fitting it has the outcome of fitting a
fresh copy of it, whatever it learned when it was the winner before. Afterwards the choice hands on
what such a copy predicts, as plain values under its own name.
-/
namespace ColumnFlow

namespace Plan

variable {env : Surroundings} {policy : SelectionPolicy} {metric : Metric} {ps : List Plan}
  {p : Plan} {s r : Site} {ss : List Site} {i : Nat} {X : Frame} {y : Option Series}
  {target : Series} {scores : List Float} {m : Memory} {w v : Workspace}

/-! The parts of a choice. -/

theorem fitAt_eq (h : (Node.zipParts ps ss)[i]? = some ⟨p, r⟩) (X : Frame) (y : Series) :
    fitAt env ps ss i X y = fit env p r X (some y) := by
  induction ps generalizing ss i with
  | nil => simp [Node.zipParts] at h
  | cons q ps ih =>
    cases ss with
    | nil => simp [Node.zipParts] at h
    | cons s ss =>
      cases i with
      | zero =>
        cases h
        simp only [fitAt]
      | succ i =>
        simp only [fitAt]
        exact ih h

theorem labelsAt_eq (h : (Node.zipParts ps ss)[i]? = some ⟨p, r⟩) (m : Memory) (X : Frame) :
    labelsAt m ps ss i X = Node.labels ⟨p, r⟩ m X := by
  induction ps generalizing ss i with
  | nil => simp [Node.zipParts] at h
  | cons q ps ih =>
    cases ss with
    | nil => simp [Node.zipParts] at h
    | cons s ss =>
      cases i with
      | zero =>
        cases h
        simp only [labelsAt]
        rfl
      | succ i =>
        simp only [labelsAt]
        exact ih h

theorem fittedAt_eq (h : (Node.zipParts ps ss)[i]? = some ⟨p, r⟩) (m : Memory) :
    fittedAt m ps ss i = isFitted m p r := by
  induction ps generalizing ss i with
  | nil => simp [Node.zipParts] at h
  | cons q ps ih =>
    cases ss with
    | nil => simp [Node.zipParts] at h
    | cons s ss =>
      cases i with
      | zero =>
        cases h
        simp only [fittedAt]
      | succ i =>
        simp only [fittedAt]
        exact ih h

/-! Scores. -/

theorem length_of_holdoutScores {split : Holdout} {y : Series} (hlen : ps.length = ss.length)
    (h : holdoutScores env metric ps ss X y split w = (.ok scores, v)) :
    scores.length = ps.length := by
  induction ps generalizing ss w scores with
  | nil =>
    simp only [holdoutScores] at h
    cases h
    rfl
  | cons p ps ih =>
    cases ss with
    | nil => cases hlen
    | cons s ss =>
      simp only [holdoutScores, Work.run_placing_bind] at h
      obtain ⟨_, _, -, h⟩ := Work.ok_of_bind h
      obtain ⟨_, _, -, h⟩ := Work.ok_of_bind h
      obtain ⟨_, _, -, h⟩ := Work.ok_of_bind h
      obtain ⟨_, _, -, h⟩ := Work.ok_of_bind h
      obtain ⟨rest, _, hrest, h⟩ := Work.ok_of_bind h
      cases h
      rw [List.length_cons, List.length_cons, ih (Nat.succ.inj hlen) hrest]

theorem length_of_foldScores {validator : Validator} {owner : Site} {y : Series}
    (hlen : ps.length = ss.length)
    (h : foldScores env validator owner ps ss X y w = (.ok scores, v)) :
    scores.length = ps.length := by
  induction ps generalizing ss w scores with
  | nil =>
    simp only [foldScores] at h
    cases h
    rfl
  | cons p ps ih =>
    cases ss with
    | nil => cases hlen
    | cons s ss =>
      have hcons : ∀ (x : Float) (u : Workspace), (do
          let rest ← foldScores env validator owner ps ss X y
          pure (x :: rest) : Work (List Float)) u = (.ok scores, v) →
          scores.length = ps.length + 1 := fun x u hu => by
        obtain ⟨rest, _, hrest, hu⟩ := Work.ok_of_bind hu
        cases hu
        rw [List.length_cons, ih (Nat.succ.inj hlen) hrest]
      simp only [foldScores] at h
      obtain ⟨⟨_, outcome⟩, u, -, h⟩ := Work.ok_of_bind h
      rcases outcome with e | result
      · cases e with
        | allFoldsFailed records =>
          obtain ⟨_, u, -, h⟩ := Work.ok_of_bind h
          obtain ⟨_, u, -, h⟩ := Work.ok_of_bind h
          exact hcons _ u h
        | _ => cases congrArg Prod.fst h
      · exact hcons _ u h

theorem length_of_candidateScores {defaults : Settings} {y : Series}
    (hlen : ps.length = s.parts.length)
    (h : candidateScores env policy metric defaults ps s X y w = (.ok scores, v)) :
    scores.length = ps.length := by
  generalize hx : candidateScores env policy metric defaults ps s X y = x at h
  unfold candidateScores at hx
  split at hx
  · rw [← hx] at h
    obtain ⟨_, _, -, h⟩ := Work.ok_of_bind h
    exact length_of_holdoutScores hlen h
  · rw [← hx] at h
    obtain ⟨_, _, -, h⟩ := Work.ok_of_bind h
    exact length_of_foldScores hlen h
  · rw [← hx] at h
    cases congrArg Prod.fst h

/-- What a choice does before it chooses: it forgets its columns and finds the scores of its
candidates, with the metric and the aligned target. -/
def appraise (env : Surroundings) (policy : SelectionPolicy) (ps : List Plan) (s : Site) (X : Frame)
    (y : Option Series) : Work (Metric × Series × List Float) := do
  let y ← alignTarget y X
  Work.setInput s none
  let y ← Work.requireTarget "BestLearner" s y
  let defaults ← Work.settings env
  let metric ← env.metrics.get (policy.metric.given (.text defaults.defaultMetric))
  let scores ← candidateScores env policy metric defaults ps s X y
  return (metric, y, scores)

theorem fit_best_eq (policy : SelectionPolicy) (s : Site) :
    fit env (.best ps policy) s X y = (do
      let (metric, y, scores) ← appraise env policy ps s X y
      fitChosen env metric ps s X y scores
      Work.setInput s (some X.labels)) := by
  rw [fit_best]
  simp only [Work.fitting, appraise, bind_assoc, pure_bind]

/-- The scores are one for every candidate, and finding them leaves all nodes as they were. -/
theorem appraised (hs : ∀ i ∈ s.ids, i < w.memory.next)
    (h : appraise env policy ps s X y w = (.ok (metric, target, scores), v)) :
    alignTarget y X = .ok (some target) ∧
      (ps.length = s.parts.length → scores.length = ps.length) ∧
      Memory.Extends [] (w.memory.withInput s none) v.memory := by
  unfold appraise at h
  obtain ⟨y', hy, h⟩ := Work.ok_of_except h
  rw [Work.run_setInput_bind] at h
  cases y' with
  | none => cases congrArg Prod.fst h
  | some y' =>
    obtain ⟨_, _, hu, h⟩ := Work.ok_of_bind h
    cases hu
    obtain ⟨defaults, u, hu, h⟩ := Work.ok_of_steady (.settings env) h
    obtain ⟨chosen, -, h⟩ := Work.ok_of_except h
    obtain ⟨found, u', hfound, h⟩ := Work.ok_of_bind h
    cases h
    refine ⟨hy, fun hlen => length_of_candidateScores hlen hfound, ?_⟩
    change u.memory = w.memory.withInput s none at hu
    rw [← hu]
    refine candidateScores_extends (fun i hi => ?_) hfound
    rw [hu]
    exact Nat.lt_of_lt_of_le (hs i hi) (w.memory.extends_withInput s none).next_le

theorem fitChosen_none (h : bestIndex metric scores = none) (X : Frame) (y : Series)
    (w : Workspace) :
    let named := (w.memory.labelsOf s.parts).zip scores
    fitChosen env metric ps s X y scores w = (.error (.noFiniteScore (w.memory.label s) named),
      { w with memory := w.memory.withLearned s (.choice (w.memory.winner s) named) }) := by
  unfold fitChosen
  rw [Work.run_memory_bind]
  simp only [h]
  rfl

theorem fitChosen_some (h : bestIndex metric scores = some i)
    (hchild : (Node.zipParts ps s.parts)[i]? = some ⟨p, r⟩) (X : Frame) (y : Series)
    (w : Workspace) :
    let named := (w.memory.labelsOf s.parts).zip scores
    fitChosen env metric ps s X y scores w = fit env p r X (some y)
      { w with memory := w.memory.withLearned s (.choice (some i) named) } := by
  unfold fitChosen
  rw [Work.run_memory_bind]
  simp only [h]
  rw [Work.run_setLearned_bind, fitAt_eq hchild]

theorem fit_best_of_appraise
    (h : appraise env policy ps s X y w = (.ok (metric, target, scores), v)) :
    fit env (.best ps policy) s X y w = (do
      fitChosen env metric ps s X target scores
      Work.setInput s (some X.labels)) v := by
  rw [fit_best_eq, Work.run_bind, h]

end Plan

namespace Node

variable {env : Surroundings} {policy : SelectionPolicy} {metric : Metric} {ps : List Plan}
  {s : Site} {i : Nat} {n c child : Node} {X y Z : Data} {F : Frame} {t : Option Series}
  {target : Series} {scores : List Float} {m : Memory} {w v : Workspace}

/-- The answer of a node to a frame is what another node predicts for it, as plain values under the
name of the first. Each refuses frames under its own name. -/
inductive Conveys (m : Memory) (n c : Node) (Z : Data) (F : Frame) : Prop
  | answer : n.transform m Z = (do return m.output n.site (← c.labels m F) F) → Conveys m n c Z F
  | notFitted : n.transform m Z = throw (.notFitted (n.label m)) →
      c.labels m F = throw (.notFitted (c.label m)) → Conveys m n c Z F
  | columnsMissing {columns : List Label} : columns ≠ [] →
      n.transform m Z = Logged.mismatch (.columnsMissing (n.label m) columns) →
      c.labels m F = Logged.mismatch (.columnsMissing (c.label m) columns) → Conveys m n c Z F

/-- A choice answers the frames that the copy answers. -/
theorem Conveys.isOk_eq (h : Conveys m n c Z F) :
    (n.transform m Z).outcome.isOk = (c.labels m F).outcome.isOk := by
  cases h with
  | answer h =>
    rw [h]
    rcases c.labels m F with ⟨_, _ | _⟩ <;> rfl
  | notFitted h h' =>
    rw [h, h']
    rfl
  | columnsMissing _ h h' =>
    rw [h, h']
    rfl

theorem guarded_bind {α β : Type} (m : Memory) (s : Site) (fitted : Bool) (F : Frame)
    (body : Unit → Logged α) (f : α → Logged β) :
    (m.guarded s fitted F body >>= f) = m.guarded s fitted F fun u => body u >>= f := by
  unfold Memory.guarded
  cases fitted with
  | false => rfl
  | true => cases m.lacking s F <;> rfl

/-- Labels are asked for behind the same guard as the answer. -/
theorem exists_guarded_labels (m : Memory) (c : Node) (F : Frame) :
    ∃ body, c.labels m F = m.guarded c.site (c.isFitted m) F body := by
  obtain ⟨p, s⟩ := c
  obtain ⟨body, hbody⟩ := exists_guarded m p s
  have houtput : ∀ f : Frame → Logged Series, (p.transform m s F >>= f) =
      m.guarded s (p.isFitted m s) F fun u => body F u >>= f := fun f => by
    rw [hbody, guarded_bind]
  cases p with
  | learner l => exact ⟨fun _ => m.predictions s F, rfl⟩
  | _ => exact ⟨_, houtput _⟩

theorem conveys_of_guarded (hcolumns : m.inputColumns n.site = m.inputColumns c.site)
    (hfitted : n.isFitted m = c.isFitted m)
    (h : n.transform m Z = m.guarded n.site (n.isFitted m) F fun _ => do
      return m.output n.site (← c.labels m F) F) : Conveys m n c Z F := by
  obtain ⟨body, hbody⟩ := exists_guarded_labels m c F
  have hlacking : m.lacking n.site F = m.lacking c.site F := by
    unfold Memory.lacking
    rw [hcolumns]
  cases hc : c.isFitted m with
  | false =>
    rw [hfitted, hc] at h
    rw [hc] at hbody
    exact .notFitted h hbody
  | true =>
    rw [hfitted, hc] at h
    rw [hc] at hbody
    unfold Memory.guarded at h hbody
    rw [hlacking] at h
    cases hl : m.lacking c.site F with
    | nil =>
      rw [hl] at h
      exact .answer h
    | cons l ls =>
      rw [hl] at h hbody
      exact .columnsMissing (List.cons_ne_nil l ls) h hbody

/-- A choice is fitted as a fresh copy of one of its candidates is, and then hands on what this copy
predicts. -/
def ServesAs (env : Surroundings) (X y : Data) (w : Workspace) (n child : Node) : Prop :=
  let served := n.fit env X y w
  let c := (child.copy served.2.memory).1
  let fresh := c.fit env X y { served.2 with memory := (child.copy served.2.memory).2 }
  served.1 = fresh.1 ∧ (served.1 = .ok () →
    ∀ Z F, Z.toFrame = .ok F → Conveys fresh.2.memory n c Z F)

/-- A tree that was fitted and a copy that is made and fitted later on the same data end in the same
way, and after a success they agree. -/
theorem Whole.agree_copy {p : Plan} {r : Site} {t' : Option Series} {u u' : Workspace}
    {o : Except Failure Unit} {S : List Nat} (hwhole : Whole ⟨p, r⟩ w.memory)
    (hfit : p.fit env r F t w = (o, u)) (hlater : Memory.Extends S w.memory u'.memory)
    (hslots : ∀ id ∈ r.ids, u'.memory.slot id = u.memory.slot id)
    (haligned : alignTarget t' F = .ok t) :
    let c := (p.copy r u'.memory).1
    let fresh := p.fit env c F t' { u' with memory := (p.copy r u'.memory).2 }
    o = fresh.1 ∧ (o = .ok () → p.Agree fresh.2.memory fresh.2.memory r c) := by
  intro c fresh
  have hold := hwhole.extend hlater
  have hcopies : p.Copies u'.memory r c (p.copy r u'.memory).2 :=
    Plan.copy_copies hold.alike hold.holds.taken rfl
  have hready : p.Ready w.memory (p.copy r u'.memory).2 r c := by
    refine ⟨hcopies.alike.congr (fun id hid => ?_) fun _ _ => rfl, hwhole.holds, hcopies.lays.holds⟩
    rw [hcopies.lays.extend.name_eq id (hold.holds.taken id hid),
      hlater.name_eq id (hwhole.holds.taken id hid)]
  have hmatched := Plan.refits env p r c F t w
    { u' with memory := (p.copy r u'.memory).2 } hready
  have hfresh : fresh = p.fit env c F t { u' with memory := (p.copy r u'.memory).2 } :=
    congrFun (fit_aligned (n := ⟨p, c⟩) haligned).symm _
  have hothers : Memory.Extends [] u'.memory fresh.2.memory :=
    Plan.fit_copy env p F t' hold.holds.taken
  rw [hfit, ← hfresh] at hmatched
  rcases fresh with ⟨_ | _, x⟩ <;> rcases o with _ | _
  · exact ⟨by rw [hmatched.1], fun h => nomatch h⟩
  · exact hmatched.elim
  · exact hmatched.elim
  · obtain ⟨hkept, hagree⟩ := hmatched
    refine ⟨rfl, fun _ => hagree.congr (fun id hid => ?_) fun _ _ => rfl⟩
    rw [← hslots id hid]
    exact hothers.slot_eq id (hold.holds.taken id hid) (by simp)

/-- A choice that noted its winner and remembers the columns of the winner hands on its labels. -/
theorem conveys_of_agree {p : Plan} {r c : Site} {columns : List Label}
    {named : List (Label × Float)} (hchild : (zipParts ps s.parts)[i]? = some ⟨p, r⟩)
    (hslot : m.inputColumns s = some columns ∧ m.learned s = .choice (some i) named)
    (hc : m.inputColumns c = some columns) (hagree : p.Agree m m r c) (hZ : Z.toFrame = .ok F) :
    Conveys m ⟨.best ps policy, s⟩ ⟨p, c⟩ Z F := by
  have hwinner : m.winner s = some i := Plan.winner_eq_of_learned hslot.2
  have hinput : m.hasInput s = true := by
    unfold Memory.hasInput
    rw [hslot.1]
    rfl
  have hfitted : isFitted ⟨.best ps policy, s⟩ m = isFitted ⟨p, c⟩ m := by
    unfold isFitted
    rw [Plan.isFitted]
    simp only [hinput, hwinner, Plan.fittedAt_eq hchild, Bool.true_and]
    exact hagree.isFitted_eq
  have hlabels : labels ⟨p, r⟩ m F = labels ⟨p, c⟩ m F := hagree.labels_eq F
  refine conveys_of_guarded (hslot.1.trans hc.symm) hfitted ?_
  have hframe : transform ⟨.best ps policy, s⟩ m Z =
      transform ⟨.best ps policy, s⟩ m (.frame F) := by
    unfold transform
    rw [hZ]
    rfl
  rw [hframe, transform_frame, Plan.transform]
  simp only [hwinner, Option.getD_some, Plan.labelsAt_eq hchild, hlabels]
  rfl

section Fitting

variable (hX : X.toFrame = .ok F) (hy : y.toSeries = .ok t)
include hX hy

variable (hn : InUse w.memory ⟨.best ps policy, s⟩) (hself : s.id ∉ Site.idsOf s.parts)
  (h : Plan.appraise env policy ps s F t w = (.ok (metric, target, scores), v))
include hn h

/-- The winner is fitted after the choice has noted it; its copy is compared with that fit. -/
theorem exists_winner_run (hbest : bestIndex metric scores = some i)
    (hchild : (zipParts ps s.parts)[i]? = some child) :
    ∃ u : Workspace, Memory.Extends s.ids w.memory u.memory ∧
      u.memory.learned s = .choice (some i) ((w.memory.labelsOf s.parts).zip scores) ∧
      Node.fit env ⟨.best ps policy, s⟩ X y w =
        (Plan.fit env child.plan child.site F (some target) >>= fun _ =>
          Work.setInput s (some F.labels)) u := by
  obtain ⟨-, -, hscored⟩ := Plan.appraised hn h
  have hv : Memory.Extends s.ids w.memory v.memory :=
    (w.memory.extends_withInput s none).trans hscored (by simp)
  have hnames : v.memory.labelsOf s.parts = w.memory.labelsOf s.parts :=
    Memory.labelsOf_extend hv fun id hid => hn id (Site.mem_ids_of_mem_idsOf_parts hid)
  let named := (w.memory.labelsOf s.parts).zip scores
  refine ⟨{ v with memory := v.memory.withLearned s (.choice (some i) named) },
    hv.trans (v.memory.extends_withLearned s _) fun id hid => .inl hid, ?_, ?_⟩
  · exact Memory.learned_withLearned (Nat.lt_of_lt_of_le (hn _ s.id_mem_ids) hv.next_le) _
  · rw [fit_eq hX hy, Plan.fit_best_of_appraise h, Work.run_bind,
      Plan.fitChosen_some hbest hchild, Work.run_bind, hnames]

/-- Without a finite score nothing is chosen, and the columns of the choice stay forgotten. -/
theorem refuses_without_score (hnone : ∀ x ∈ scores, x.isFinite = false) :
    let served := Node.fit env ⟨.best ps policy, s⟩ X y w
    (∃ named, served.1 = .error (.noFiniteScore (w.memory.label s) named)) ∧
      isFitted ⟨.best ps policy, s⟩ served.2.memory = false := by
  obtain ⟨-, -, hscored⟩ := Plan.appraised hn h
  have hv : Memory.Extends s.ids w.memory v.memory :=
    (w.memory.extends_withInput s none).trans hscored (by simp)
  have hname : v.memory.label s = w.memory.label s := hv.name_eq s.id (hn _ s.id_mem_ids)
  have hforgot : v.memory.Forgot s := (Memory.forgot_withInput hn).extend hscored List.not_mem_nil
  simp only [fit_eq hX hy, Plan.fit_best_of_appraise h, Work.run_bind,
    Plan.fitChosen_none (bestIndex_eq_none_iff.2 hnone), hname]
  exact ⟨⟨_, rfl⟩, (hforgot.withLearned _).isFitted_eq_false _⟩

include hself

/-- The winner and the scores are noted before the winner is fitted, so that they stay even when its
fit fails. -/
theorem learned_fit (hbest : bestIndex metric scores = some i)
    (hchild : (zipParts ps s.parts)[i]? = some child) :
    (Node.fit env ⟨.best ps policy, s⟩ X y w).2.memory.learned s =
      .choice (some i) ((w.memory.labelsOf s.parts).zip scores) := by
  obtain ⟨u, hu, hnoted, hrun⟩ := exists_winner_run hX hy hn h hbest hchild
  have hids : ∀ id ∈ child.site.ids, id ∈ Site.idsOf s.parts := fun id hid =>
    ids_of_mem_zipParts (List.mem_of_getElem? hchild) hid
  have hsu : s.id < u.memory.next := Nat.lt_of_lt_of_le (hn _ s.id_mem_ids) hu.next_le
  have hextend := Plan.fit_extends env child.plan F (some target) (w := u) fun id hid =>
    Nat.lt_of_lt_of_le (hn id (Site.mem_ids_of_mem_idsOf_parts (hids id hid))) hu.next_le
  have hlearned := Plan.learned_eq_of_extends hextend hsu fun hid => hself (hids _ hid)
  rw [hrun, Work.run_bind]
  rcases hfit : Plan.fit env child.plan child.site F (some target) u with ⟨_ | _, u'⟩ <;>
    rw [hfit] at hextend hlearned
  · exact hlearned.trans hnoted
  · refine (Memory.learned_withInput (Nat.lt_of_lt_of_le hsu hextend.next_le)).trans ?_
    exact hlearned.trans hnoted

theorem serves_winner (hbest : bestIndex metric scores = some i)
    (hchild : (zipParts ps s.parts)[i]? = some child) (hwhole : child.Whole w.memory) :
    ServesAs env X y w ⟨.best ps policy, s⟩ child := by
  obtain ⟨u, hu, hnoted, hrun⟩ := exists_winner_run hX hy hn h hbest hchild
  obtain ⟨haligned, -⟩ := Plan.appraised hn h
  obtain ⟨p, r⟩ := child
  have hsr : s.id ∉ r.ids := fun hid =>
    hself (ids_of_mem_zipParts (List.mem_of_getElem? hchild) hid)
  have hwholeu := hwhole.extend hu
  have hextend := Plan.fit_extends env p F (some target) hwholeu.holds.taken
  rw [Work.run_bind] at hrun
  rcases hfit : Plan.fit env p r F (some target) u with ⟨o, u'⟩
  rw [hfit] at hextend hrun
  unfold ServesAs
  rw [hrun]
  cases o with
  | error e =>
    obtain ⟨hend, -⟩ := hwholeu.agree_copy hfit hextend (fun _ _ => rfl) haligned
    refine ⟨?_, fun hok => nomatch hok⟩
    rw [fit_eq hX hy]
    exact hend
  | ok _ =>
    let served : Workspace := { u' with memory := u'.memory.withInput s (some F.labels) }
    have hlater : Memory.Extends (s.id :: r.ids) u.memory served.memory :=
      (hextend.mono fun _ hid => List.mem_cons_of_mem _ hid).trans
        (.update List.mem_cons_self (fun _ => by rfl) _) fun id hid => .inl hid
    have hslots : ∀ id ∈ r.ids, served.memory.slot id = u'.memory.slot id := fun id hid =>
      Memory.slot_withInput_of_ne fun heq => hsr (heq ▸ hid)
    let c := (p.copy r served.memory).1
    let placed : Workspace := { served with memory := (p.copy r served.memory).2 }
    let fresh := Plan.fit env p c F t placed
    obtain ⟨hend, hagree⟩ :
        Except.ok () = fresh.1 ∧ (_ → p.Agree fresh.2.memory fresh.2.memory r c) :=
      Whole.agree_copy hwholeu hfit hlater hslots haligned
    have hnode : Node.fit env ⟨p, c⟩ X y placed = fresh := by rw [fit_eq hX hy]
    change Except.ok () = (Node.fit env ⟨p, c⟩ X y placed).1 ∧ (_ → ∀ Z Y, Z.toFrame = .ok Y →
      Conveys (Node.fit env ⟨p, c⟩ X y placed).2.memory _ ⟨p, c⟩ Z Y)
    rw [hnode]
    have htaken := (hwholeu.extend hlater).holds.taken
    have hsu : s.id < u'.memory.next :=
      Nat.lt_of_lt_of_le (hn _ s.id_mem_ids) (Nat.le_trans hu.next_le hextend.next_le)
    have hslot : fresh.2.memory.slot s.id =
        { u'.memory.slot s.id with inputColumns := some F.labels } := by
      have hothers : Memory.Extends [] served.memory fresh.2.memory :=
        Plan.fit_copy env p F t htaken
      have hnext : served.memory.next = u'.memory.next := Memory.next_update _ _ _
      rw [hothers.slot_eq s.id (hnext ▸ hsu) (by simp)]
      exact Memory.slot_withInput_self hsu
    have hlearned : u'.memory.learned s = u.memory.learned s :=
      Plan.learned_eq_of_extends hextend (Nat.lt_of_lt_of_le (hn _ s.id_mem_ids) hu.next_le) hsr
    have hcolumns : fresh.2.memory.inputColumns c = some F.labels := by
      have hcopy := (Plan.copy_new p htaken).2
      have hrun : p.fit env c F t placed = (.ok (), fresh.2) := Prod.ext hend.symm rfl
      exact inputColumns_fit (n := ⟨p, c⟩) (fun id hid => (hcopy id hid).2) hrun
    have hstate : fresh.2.memory.inputColumns s = some F.labels ∧ fresh.2.memory.learned s =
        .choice (some i) ((w.memory.labelsOf s.parts).zip scores) := by
      constructor
      · unfold Memory.inputColumns
        rw [hslot]
      · rw [← hnoted, ← hlearned]
        unfold Memory.learned
        rw [hslot]
    exact ⟨hend, fun _ Z Y hZ => conveys_of_agree hchild hstate hcolumns (hagree rfl) hZ⟩

end Fitting

theorem labels_children (hlen : ps.length = s.parts.length) :
    (⟨.best ps policy, s⟩ : Node).children.map (fun c => c.label m) = m.labelsOf s.parts := by
  unfold children zipParts Memory.labelsOf
  refine List.ext_getElem ?_ fun i hi hi' => ?_
  · simp only [List.length_map, List.length_zipWith, hlen, min_self]
  · simp only [List.getElem_map, List.getElem_zipWith]
    rfl

/-- A choice picks the first of the finite scores that no finite score beats, and serves this
candidate, fitted on all rows, whatever calls were made before and whatever scores the trial of the
candidates gives. Without a finite one the fit is refused and the choice is not fitted. Else it
notes its pick and the score of every candidate under its name; and if the candidate is a tree of
its own, of which a copy has the same names, the fit ends as that of a fresh copy of it does, and
after a success the choice hands on what this copy predicts. -/
theorem first_best_served (ps : List Plan) (policy : SelectionPolicy) (s : Site) (w : Workspace)
    (hn : InUse w.memory ⟨.best ps policy, s⟩) (hself : s.id ∉ Site.idsOf s.parts)
    (hlen : ps.length = s.parts.length) (history : List Call) :
    let n : Node := ⟨.best ps policy, s⟩
    let used := (n.calls history w).2
    ∀ env X y F t metric target scores v, X.toFrame = .ok F → y.toSeries = .ok t →
      Plan.appraise env policy ps s F t used = (.ok (metric, target, scores), v) →
      scores.length = n.children.length ∧
      ((∀ x ∈ scores, x.isFinite = false) →
        (∃ e, (n.fit env X y used).1 = .error e ∧ e.kind = "PipelineAlgebraError") ∧
          n.isFitted (n.fit env X y used).2.memory = false) ∧
      ((∃ x ∈ scores, x.isFinite = true) → ∃ i child,
        IsLeast {j | metric.Unbeaten scores j} i ∧ n.children[i]? = some child ∧
          (n.fit env X y used).2.memory.learned s = .choice (some i)
            ((n.children.map fun c => c.label used.memory).zip scores) ∧
          (child.Whole w.memory → ServesAs env X y used n child)) := by
  intro n used env X y F t metric target scores v hX hy h
  have hused : Memory.Extends s.ids w.memory used.memory := calls_extends hn history
  have hnused : InUse used.memory n := hn.extend hused
  have hcount : n.children.length = ps.length := by
    simp only [n, children, zipParts, List.length_zipWith, ← hlen, min_self]
  have hscores : scores.length = ps.length := (Plan.appraised hnused h).2.1 hlen
  refine ⟨hscores.trans hcount.symm, fun hnone => ?_, fun hsome => ?_⟩
  · obtain ⟨⟨named, hrefused⟩, hunfitted⟩ := refuses_without_score hX hy hnused h hnone
    exact ⟨⟨_, hrefused, rfl⟩, hunfitted⟩
  · cases hbest : bestIndex metric scores with
    | none =>
      obtain ⟨x, hx, hfinite⟩ := hsome
      rw [bestIndex_eq_none_iff.1 hbest x hx] at hfinite
      cases hfinite
    | some i =>
      have hleast := bestIndex_eq_some_iff.1 hbest
      obtain ⟨x, hx, -⟩ := hleast.1
      have hi : i < n.children.length := by
        rw [hcount, ← hscores]
        exact (List.getElem?_eq_some_iff.1 hx).1
      have hchild : n.children[i]? = some n.children[i] := List.getElem?_eq_getElem hi
      refine ⟨i, n.children[i], hleast, hchild, ?_, fun hwhole => ?_⟩
      · rw [labels_children hlen]
        exact learned_fit hX hy hnused hself h hbest hchild
      · exact serves_winner hX hy hnused hself h hbest hchild (hwhole.extend hused)

/-- Gives every column one name. -/
def relabeller : Transformer := ⟨"Relabeller", [], fun _ => return some ⟨[], fun _ X =>
  return .frame ⟨X.index, X.columns.map fun c => c.rename (.text "b")⟩, fun _ _ => false⟩⟩

/-- Predicts what a column holds. -/
def reader (l : String) : Learner := ⟨"Reader", [], .labels, "classification", fun _ _ =>
  return some ⟨fun X => match X.columns.find? fun c => c.label.same (.text l) with
    | some c => return c
    | none => Logged.fail .key, none⟩⟩

/-- Two transformers and a learner; or twice one transformer. -/
def relabelling (second : Nat) : Node :=
  ⟨.sequential [.transformer relabeller, .transformer relabeller, .learner (reader "b")],
    .mk 4 [.mk 0 [], .mk second [], .mk 3 []]⟩

/-- A learner that reads the answer of a vote under the default name of votes. -/
def readsVote : Node :=
  ⟨.sequential [.vote [.learner (reader "a"), .learner (reader "a")], .learner (reader "vote")],
    .mk 4 [.mk 2 [.mk 0 [], .mk 1 []], .mk 3 []]⟩

def contestPolicy : SelectionPolicy :=
  ⟨.text "one", .text "holdout", .int 1, .null, .bool false, .bool false, .null⟩

/-- A choice between a node and a learner. -/
def contest (c : Node) : Node :=
  ⟨.best [c.plan, .learner (reader "a")] contestPolicy, .mk 6 [c.site, .mk 5 []]⟩

/-- The name of the vote can be chosen. -/
def contestSpace (name : String) : Workspace :=
  ⟨⟨#[.fresh (.text "p"), .fresh (.text "q"), .fresh (.text name), .fresh (.text "r"),
    .fresh (.text "seq"), .fresh (.text "rival"), .fresh (.text "best")]⟩, [], false⟩

/-- The only metric gives every guess a score of 1. -/
def oneMetric : Surroundings := ⟨.ok .standard, ⟨[("one", ⟨"one", true, fun _ _ => .ok 1.0⟩)]⟩⟩

def entries : Frame := ⟨rangeIndex 2, [⟨.text "a", .int64, [.int 0, .int 1]⟩]⟩

def entryMarks : Series := ⟨⟨.text "mark", .int64, [.int 1, .int 1]⟩, rangeIndex 2⟩

/-- The place of the best score in the trial of a contest. -/
def contestBest (c : Node) (w : Workspace) : Option Nat :=
  (Plan.appraise oneMetric contestPolicy [c.plan, .learner (reader "a")] (contest c).site entries
    (some entryMarks) w).1.toOption.bind fun r => bestIndex r.1 r.2.2

theorem contest_tried {c : Node} (h : contestBest c w = some i) :
    ∃ metric target scores v, Plan.appraise oneMetric contestPolicy
      [c.plan, .learner (reader "a")] (contest c).site entries (some entryMarks) w =
        (.ok (metric, target, scores), v) ∧ IsLeast {j | metric.Unbeaten scores j} i := by
  unfold contestBest at h
  rcases hrun : Plan.appraise oneMetric contestPolicy [c.plan, .learner (reader "a")]
    (contest c).site entries (some entryMarks) w with ⟨_ | ⟨metric, target, scores⟩, v⟩ <;>
    rw [hrun] at h
  · cases h
  · exact ⟨metric, target, scores, v, rfl, bestIndex_eq_some_iff.1 h⟩

/-- A choice that is fitted for the second time. -/
theorem first_best_served_contest :
    let c := relabelling 1
    let history : List Call :=
      [.fit oneMetric (.frame entries) (.series entryMarks), .transform (.frame entries)]
    let w := contestSpace "vote"
    let used := ((contest c).calls history w).2
    InUse w.memory (contest c) ∧ ∃ metric target scores v,
      Plan.appraise oneMetric contestPolicy [c.plan, .learner (reader "a")] (contest c).site
        entries (some entryMarks) used = (.ok (metric, target, scores), v) ∧
      IsLeast {j | metric.Unbeaten scores j} 0 ∧ c.Whole w.memory ∧
      ServesAs oneMetric (.frame entries) (.series entryMarks) used (contest c) c := by
  intro c history w used
  have hn : InUse w.memory (contest c) := by decide
  obtain ⟨metric, target, scores, v, htried, hfirst⟩ :=
    contest_tried (c := c) (i := 0) (w := used) (by decide +kernel)
  obtain ⟨x, hx, hfinite, -⟩ := hfirst.1
  obtain ⟨-, -, hbest⟩ := first_best_served [c.plan, .learner (reader "a")] contestPolicy
    (contest c).site w hn (by decide) rfl history oneMetric (.frame entries) (.series entryMarks)
    entries (some entryMarks) metric target scores v rfl rfl htried
  obtain ⟨i, child, hleast, hchild, -, hserves⟩ := hbest ⟨x, List.mem_of_getElem? hx, hfinite⟩
  obtain rfl : i = 0 := hleast.unique hfirst
  obtain rfl : c = child := Option.some.inj hchild
  have hwhole : c.Whole w.memory := by
    refine ⟨?_, by decide, by decide⟩
    simp only [c, relabelling, Plan.Alike, Plan.alikeAll_iff]
    exact ⟨⟨rfl, rfl⟩, .cons rfl (.cons rfl (.cons rfl .nil))⟩
  exact ⟨hn, metric, target, scores, v, htried, hfirst, hwhole, hserves hwhole⟩

/-- Every choice serves its winner as a copy of it answers that is fitted on all rows, if the winner
has some property. -/
def ServesWinners (P : Node → Memory → Prop) : Prop :=
  ∀ (ps : List Plan) (policy : SelectionPolicy) (s : Site) (w : Workspace),
    InUse w.memory ⟨.best ps policy, s⟩ → s.id ∉ Site.idsOf s.parts →
    ps.length = s.parts.length → ∀ env (X y : Data) F t metric target scores v i child,
      X.toFrame = .ok F → y.toSeries = .ok t →
      Plan.appraise env policy ps s F t w = (.ok (metric, target, scores), v) →
      IsLeast {j | metric.Unbeaten scores j} i →
      (⟨.best ps policy, s⟩ : Node).children[i]? = some child → P child w.memory →
      ServesAs env X y w ⟨.best ps policy, s⟩ child

/-- A contest refutes it in which the winner answers a frame that a copy of it refuses, or the other
way round. -/
theorem not_servesWinners {P : Node → Memory → Prop} {c : Node} (hP : P c w.memory)
    (hn : InUse w.memory (contest c)) (hself : 6 ∉ Site.idsOf [c.site, .mk 5 []])
    (hbest : contestBest c w = some 0) :
    let served := (contest c).fit oneMetric (.frame entries) (.series entryMarks) w
    let copied := c.copy served.2.memory
    let fresh := copied.1.fit oneMetric (.frame entries) (.series entryMarks)
      { served.2 with memory := copied.2 }
    served.1.isOk = true →
      ((contest c).transform fresh.2.memory (.frame entries)).outcome.isOk ≠
        (copied.1.labels fresh.2.memory entries).outcome.isOk → ¬ ServesWinners P := by
  intro served copied fresh hok hdiffer h
  obtain ⟨metric, target, scores, v, htried, hfirst⟩ := contest_tried hbest
  obtain ⟨-, hserves⟩ := h _ contestPolicy (contest c).site w hn hself rfl oneMetric
    (.frame entries) (.series entryMarks) entries (some entryMarks) metric target scores v 0 c rfl
    rfl htried hfirst rfl hP
  have hserved : served.1 = .ok () := by
    cases hend : served.1 with
    | error e =>
      rw [hend] at hok
      cases hok
    | ok _ => rfl
  exact hdiffer (hserves hserved (.frame entries) entries rfl).isOk_eq

/-- Neither condition can be left out. Where one node stands in two places of the winner it is
fitted twice and answers for both as it was fitted last, whereas a copy of the winner has two nodes
there. And a copy of a vote without a name has the default name, under which it is read. -/
theorem winner_served_otherwise :
    ¬ ServesWinners (fun c m => c.plan.Alike m m c.site c.site) ∧
      ¬ ServesWinners fun c m => m.Holds c.site.ids := by
  have halike : (relabelling 0).plan.Alike (contestSpace "vote").memory
      (contestSpace "vote").memory (relabelling 0).site (relabelling 0).site := by
    simp only [relabelling, Plan.Alike, Plan.alikeAll_iff]
    exact ⟨⟨rfl, rfl⟩, .cons rfl (.cons rfl (.cons rfl .nil))⟩
  have hholds : (contestSpace "").memory.Holds readsVote.site.ids := ⟨by decide, by decide⟩
  exact ⟨not_servesWinners (c := relabelling 0) halike (by decide) (by decide) (by decide +kernel)
      (by decide +kernel) (by decide +kernel),
    not_servesWinners (c := readsVote) hholds (by decide) (by decide) (by decide +kernel)
      (by decide +kernel) (by decide +kernel)⟩

end Node
end ColumnFlow
