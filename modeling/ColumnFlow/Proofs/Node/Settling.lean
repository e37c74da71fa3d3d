import ColumnFlow.Proofs.Node.Handing

/-!
# What a fit settles

A fit that succeeds leaves a tree that recognizes the columns it was fitted with. Each node
remembers what it was given during the fit, and the labels of what the parts of the tree make of a
frame are settled by then: it does not matter that a stack fits its stacker on other rows than its
members, nor that a bagging ensemble fits its members on samples.
-/
namespace ColumnFlow

namespace Work

variable {α β : Type} {w v : Workspace} {a : α} {b : β} {s : Site} {X : Frame} {y : Option Series}

/-! What succeeded before the rest of a run succeeded. -/

theorem ok_of_steady {x : Work α} {f : α → Work β} (hx : Steady x)
    (h : (x >>= f) w = (.ok b, v)) : ∃ a u, u.memory = w.memory ∧ f a u = (.ok b, v) := by
  obtain ⟨a, u, hu, hrest⟩ := ok_of_bind h
  have hmemory := (hx w w).2
  rw [hu] at hmemory
  exact ⟨a, u, hmemory, hrest⟩

theorem ok_of_except {x : Except Failure α} {f : α → Work β}
    (h : ((liftM x : Work α) >>= f) w = (.ok b, v)) : ∃ a, x = .ok a ∧ f a w = (.ok b, v) := by
  cases x with
  | error e => cases congrArg Prod.fst h
  | ok a => exact ⟨a, rfl, h⟩

theorem ok_of_logged {x : Logged α} {f : α → Work β}
    (h : ((liftM x : Work α) >>= f) w = (.ok b, v)) :
    ∃ a u, x.outcome = .ok a ∧ u.memory = w.memory ∧ f a u = (.ok b, v) := by
  rcases x with ⟨notices, e | a⟩
  · cases congrArg Prod.fst h
  · exact ⟨a, { w with notices := w.notices ++ notices }, rfl, rfl, h⟩

theorem ok_of_requireTarget {ensemble : String} {f : Series → Work β}
    (h : (requireTarget ensemble s y >>= f) w = (.ok b, v)) : ∃ t, f t w = (.ok b, v) := by
  cases y with
  | none => cases congrArg Prod.fst h
  | some t => exact ⟨t, h⟩

theorem memory_of_setLearned {l : Learned} (h : setLearned s l w = (.ok (), v)) :
    v.memory = w.memory.withLearned s l :=
  congrArg Workspace.memory (congrArg Prod.snd h).symm

/-- A fit that succeeds forgets the columns of the node, and remembers the new ones in the end. -/
theorem ok_of_fitting {body : Option Series → Work Unit}
    (h : fitting s X y body w = (.ok (), v)) :
    ∃ y' u, body y' { w with memory := w.memory.withInput s none } = (.ok (), u) ∧
      v.memory = u.memory.withInput s (some X.labels) := by
  unfold fitting at h
  obtain ⟨y', -, hrest⟩ := ok_of_except h
  rw [run_setInput_bind] at hrest
  obtain ⟨_, u, hbody, hlast⟩ := ok_of_bind hrest
  rw [run_setInput] at hlast
  exact ⟨y', u, hbody, congrArg Workspace.memory (congrArg Prod.snd hlast).symm⟩

end Work

namespace Site

theorem ids_sublist_idsOf {s : Site} {ss : List Site} (hs : s ∈ ss) :
    s.ids.Sublist (idsOf ss) := by
  induction ss with
  | nil => cases hs
  | cons r ss ih =>
    rw [idsOf]
    rcases List.mem_cons.1 hs with rfl | hs
    · exact List.sublist_append_left _ _
    · exact (ih hs).trans (List.sublist_append_right _ _)

end Site

namespace Memory

variable {m m' : Memory} {s : Site} {ss : List Site} {S : List Nat} {l : Learned}

theorem learned_withInput {columns : Option (List Label)} (hs : s.id < m.next) :
    (m.withInput s columns).learned s = m.learned s := by
  unfold learned
  rw [slot_withInput_self hs]

theorem learned_remembered {columns : Option (List Label)} (hs : s.id < m.next) :
    ((m.withLearned s l).withInput s columns).learned s = l := by
  have hnext : (m.withLearned s l).next = m.next := next_update _ _ _
  rw [learned_withInput (hnext.symm ▸ hs)]
  exact learned_withLearned hs l

theorem labelsOf_extend (h : Extends S m m') (hss : ∀ i ∈ Site.idsOf ss, i < m.next) :
    m'.labelsOf ss = m.labelsOf ss :=
  List.map_congr_left fun r hr =>
    h.name_eq r.id (hss _ (Site.mem_idsOf.2 ⟨r, hr, r.id_mem_ids⟩))

theorem Holds.rest (h : m.Holds s.ids) : m.Holds (Site.idsOf s.rest) := by
  refine h.parts.sublist ?_
  unfold Site.rest
  cases s.parts with
  | nil => exact .refl _
  | cons r rs => exact List.sublist_append_right _ _

end Memory

namespace Plan

variable {env : Surroundings} {t : Plan} {ps : List Plan} {s : Site} {ss : List Site} {X : Frame}
  {y : Series} {w v : Workspace}

/-! A fit of one part, a trial of candidates and fits of members leave everything else as it is. -/

theorem fitAt_extends {i : Nat} {o : Except Failure Unit}
    (hss : ∀ i ∈ Site.idsOf ss, i < w.memory.next) (h : fitAt env ps ss i X y w = (o, v)) :
    Memory.Extends (Site.idsOf ss) w.memory v.memory := by
  obtain rfl : (fitAt env ps ss i X y w).2 = v := congrArg Prod.snd h
  refine Work.Alongside.extend ?_ hss
  have h : Work.Alongside (Memory.Tracks id (Site.idsOf ss) w.memory w.memory)
      (fitAt env ps ss i X y) (fitAt env ps (ss.map (Site.rename id)) i X y) :=
    fitAt_follows (fun p _ => follows env p) (List.Subset.refl _)
  rwa [Site.map_rename_eq_self (f := id) fun _ => rfl] at h

/-- Candidates are tried out on copies. -/
theorem candidateScores_extends {policy : SelectionPolicy} {metric : Metric} {defaults : Settings}
    {o : Except Failure (List Float)} (hs : ∀ i ∈ s.ids, i < w.memory.next)
    (h : candidateScores env policy metric defaults ps s X y w = (o, v)) :
    Memory.Extends [] w.memory v.memory := by
  obtain rfl : (candidateScores env policy metric defaults ps s X y w).2 = v := congrArg Prod.snd h
  exact candidateScores_keeps (I := Memory.Extends [] w.memory)
    (fun m m' hm h => h.trans hm (by simp))
    (fun m hm i hi => Nat.lt_of_lt_of_le (hs i hi) hm.next_le) w (.refl _ _)

/-- Members of a bagging ensemble are fitted, each with rows of its own drawing. -/
def fitDrawn (env : Surroundings) (t : Plan) (X : Frame) (y : Series) (size : Nat)
    (source : Draw.Twister) (ss : List Site) : Work Draw.Twister :=
  ss.foldlM (fun source member => do
    let (rows, source) := Draw.Twister.sample X.rows size source
    fit env t member (X.takeRows rows) (some (y.takeRows rows))
    return source) source

theorem fitDrawn_extends {size : Nat} {source : Draw.Twister} {o : Except Failure Draw.Twister}
    (hss : ∀ i ∈ Site.idsOf ss, i < w.memory.next)
    (h : fitDrawn env t X y size source ss w = (o, v)) :
    Memory.Extends (Site.idsOf ss) w.memory v.memory := by
  obtain rfl : (fitDrawn env t X y size source ss w).2 = v := congrArg Prod.snd h
  refine Work.Alongside.extend ?_ hss
  have h : Work.Alongside (Memory.Tracks id (Site.idsOf ss) w.memory w.memory)
      (fitDrawn env t X y size source ss)
      (fitDrawn env t X y size source (ss.map (Site.rename id))) :=
    fitMembers_follows (follows env t) (List.Subset.refl _)
  rwa [Site.map_rename_eq_self (f := id) fun _ => rfl] at h

end Plan

namespace Node

/-- The nodes of the library: its transformers, learners that name classes, composites and
ensembles; a stack has a stacker. -/
def Proper (n : Node) : Prop :=
  match n.plan with
  | .transformer t => t.BuiltIn
  | .learner l => l.NamesClasses
  | .element _ => False
  | .stack .. => n.site.parts ≠ []
  | _ => True

/-- A tree of library nodes that shares no node with itself, with texts for names. -/
structure Sound (m : Memory) (n : Node) : Prop where
  holds : m.Holds n.site.ids
  named : ∀ i ∈ n.site.ids, (m.slot i).name.isText = true
  proper : n.Throughout Proper

variable {m m' : Memory} {n q : Node} {s : Site} {S : List Nat} {L M : List Label}
  {env : Surroundings} {w v : Workspace} {t : Plan} {ps : List Plan} {ss : List Site} {X : Frame}
  {y : Option Series}

theorem Sound.extend (h : n.Sound m) (hm : Memory.Extends S m m') : n.Sound m' where
  holds := h.holds.extend hm
  named i hi := by
    rw [hm.name_eq i (h.holds.taken i hi)]
    exact h.named i hi
  proper := h.proper

theorem site_mem_of_mem_parts (hn : n.Proper) (hq : q ∈ n.parts) : q.site ∈ n.site.parts := by
  obtain ⟨p, s⟩ := n
  cases p with
  | transformer | learner | element => cases hq
  | sequential | parallel | vote | best => exact (of_mem_zipParts hq).2
  | stack t ps settings =>
    rcases List.mem_cons.1 hq with rfl | hq
    · exact Site.first_mem_parts hn
    · exact Site.mem_parts_of_mem_rest (of_mem_zipParts hq).2
  | bagging t settings =>
    obtain ⟨r, hr, rfl⟩ := List.mem_map.1 hq
    exact Site.mem_parts_of_mem_rest hr

theorem Sound.part (h : n.Sound m) (hq : q ∈ n.parts) : q.Sound m where
  holds := h.holds.parts.sublist
    (Site.ids_sublist_idsOf (site_mem_of_mem_parts h.proper.self hq))
  named i hi := h.named i (ids_of_mem_parts hq hi)
  proper := h.proper.part hq

theorem Sound.notMem_part (h : n.Sound m) (hq : q ∈ n.parts) : n.site.id ∉ q.site.ids := fun hid =>
  h.holds.id_notMem_parts
    ((Site.ids_sublist_idsOf (site_mem_of_mem_parts h.proper.self hq)).subset hid)

/-! What was settled stays so while other slots change. -/

theorem Settled.extend (h : Settled m q L M) (hm : Memory.Extends S m m')
    (hids : ∀ i ∈ q.site.ids, i < m.next) (hS : ∀ i ∈ q.site.ids, i ∉ S) : Settled m' q L M :=
  h.same (hm.mirrors hids hS).renamed

/-- A fit that succeeds settles a tree on the columns it is fitted with. -/
def Settles (env : Surroundings) (n : Node) : Prop :=
  ∀ X y w v, n.Sound w.memory → (∀ l ∈ X.labels, l.isText = true) →
    n.plan.fit env n.site X y w = (.ok (), v) → ∃ M, Settled v.memory n X.labels M

section Parts

variable (ih : ∀ q ∈ zipParts ps ss, q.Settles env) (hholds : w.memory.Holds (Site.idsOf ss))
  (hsound : ∀ q ∈ zipParts ps ss, q.Sound w.memory) (htexts : ∀ l ∈ X.labels, l.isText = true)
include ih hholds hsound htexts

theorem fitAll_settled (h : Plan.fitAll env ps ss X y w = (.ok (), v)) :
    ∀ q ∈ zipParts ps ss, ∃ M, Settled v.memory q X.labels M := by
  induction ps generalizing ss w with
  | nil => exact fun q hq => nomatch hq
  | cons p ps ihs =>
    cases ss with
    | nil => exact fun q hq => nomatch hq
    | cons s ss =>
      rw [zipParts_cons, List.forall_mem_cons] at ih hsound ⊢
      rw [Site.idsOf] at hholds
      simp only [Plan.fitAll] at h
      obtain ⟨_, u, hu, hv⟩ := Work.ok_of_bind h
      have hfirst := Plan.fit_extends env p X y hholds.left.taken
      rw [hu] at hfirst
      have hrest := Plan.fitAll_extends env ps X y (hholds.extend hfirst).right.taken
      rw [hv] at hrest
      obtain ⟨M, hM⟩ := ih.1 X y w u hsound.1 htexts hu
      refine ⟨⟨M, hM.extend hrest (hholds.extend hfirst).left.taken fun _ => hholds.disjoint⟩, ?_⟩
      exact ihs ih.2 (hholds.extend hfirst).right (fun q hq => (hsound.2 q hq).extend hfirst) hv

theorem fitChain_linked (h : Plan.fitChain env ps ss X y w = (.ok (), v)) :
    Linked v.memory (zipParts ps ss) X.labels := by
  induction ps generalizing ss w X with
  | nil => exact .nil
  | cons p ps ihs =>
    cases ss with
    | nil => exact .nil
    | cons s ss =>
      rw [zipParts_cons, List.forall_mem_cons] at ih hsound
      rw [zipParts_cons]
      rw [Site.idsOf] at hholds
      have hfirst := Plan.fit_extends env p X y hholds.left.taken
      cases ps with
      | nil =>
        simp only [Plan.fitChain] at h
        obtain ⟨M, hM⟩ := ih.1 X y w v hsound.1 htexts h
        exact .cons hM .nil
      | cons p' ps =>
        simp only [Plan.fitChain] at h
        obtain ⟨_, u, hu, hv⟩ := Work.ok_of_bind h
        rw [hu] at hfirst
        rw [Work.run_memory_bind] at hv
        obtain ⟨Z, u', hZ, hu', hv'⟩ := Work.ok_of_logged hv
        obtain ⟨M, hM⟩ := ih.1 X y w u hsound.1 htexts hu
        -- The next part is fitted on what the first makes of the frame, which has the labels `M`.
        obtain rfl : Z.labels = M := hM.carries X Z rfl hZ
        rw [← hu'] at hfirst hM
        have hrest := Plan.fitChain_extends env (p' :: ps) Z y (hholds.extend hfirst).right.taken
        rw [hv'] at hrest
        refine .cons (hM.extend hrest (hholds.extend hfirst).left.taken fun _ => hholds.disjoint) ?_
        exact ihs ih.2 (hholds.extend hfirst).right (fun q hq => (hsound.2 q hq).extend hfirst)
          hM.texts hv'

theorem fitAt_settled {i : Nat} {y : Series} (h : Plan.fitAt env ps ss i X y w = (.ok (), v)) :
    ∀ q, (zipParts ps ss)[i]? = some q → ∃ M, Settled v.memory q X.labels M := by
  induction ps generalizing ss i with
  | nil => exact fun q hq => nomatch hq
  | cons p ps ihs =>
    cases ss with
    | nil => exact fun q hq => nomatch hq
    | cons s ss =>
      rw [zipParts_cons, List.forall_mem_cons] at ih hsound
      rw [Site.idsOf] at hholds
      cases i with
      | zero =>
        intro q hq
        obtain rfl := Option.some.inj hq
        simp only [Plan.fitAt] at h
        exact ih.1 X (some y) w v hsound.1 htexts h
      | succ i =>
        simp only [Plan.fitAt] at h
        exact ihs ih.2 hholds.right hsound.2 h

end Parts

theorem fitDrawn_settled {y : Series} {size : Nat} {source last : Draw.Twister}
    (ih : ∀ r ∈ ss, Settles env ⟨t, r⟩) (hholds : w.memory.Holds (Site.idsOf ss))
    (hsound : ∀ r ∈ ss, Sound w.memory ⟨t, r⟩) (htexts : ∀ l ∈ X.labels, l.isText = true)
    (h : Plan.fitDrawn env t X y size source ss w = (.ok last, v)) :
    ∀ r ∈ ss, ∃ M, Settled v.memory ⟨t, r⟩ X.labels M := by
  induction ss generalizing source w with
  | nil => exact fun r hr => nomatch hr
  | cons s ss ihs =>
    rw [List.forall_mem_cons] at ih hsound ⊢
    rw [Site.idsOf] at hholds
    unfold Plan.fitDrawn at h
    rw [List.foldlM_cons] at h
    obtain ⟨next, u, hu, hv⟩ := Work.ok_of_bind h
    change Plan.fitDrawn env t X y size next ss u = (.ok last, v) at hv
    generalize Draw.Twister.sample X.rows size source = drawn at hu
    obtain ⟨_, u', hu', hu⟩ := Work.ok_of_bind hu
    obtain rfl : u' = u := congrArg Prod.snd hu
    have hfirst := Plan.fit_extends env t (X.takeRows drawn.1) (some (y.takeRows drawn.1))
      hholds.left.taken
    rw [hu'] at hfirst
    have hrest := Plan.fitDrawn_extends (hholds.extend hfirst).right.taken hv
    have hlabels := Frame.labels_takeRows X drawn.1
    obtain ⟨M, hM⟩ := ih.1 _ _ w u' hsound.1 (hlabels ▸ htexts) hu'
    rw [hlabels] at hM
    refine ⟨⟨M, hM.extend hrest (hholds.extend hfirst).left.taken fun _ => hholds.disjoint⟩, ?_⟩
    exact ihs ih.2 (hholds.extend hfirst).right (fun r hr => (hsound.2 r hr).extend hfirst) hv

/-! Node by node. -/

/-- What holds of the parts when the body of a fit is done still holds when the node remembers its
columns. -/
theorem Settled.remember {columns : Option (List Label)} (h : Settled m q L M)
    (hs : s.id ∉ q.site.ids) : Settled (m.withInput s columns) q L M :=
  h.same fun _ hi => (Memory.slot_withInput_of_ne fun heq => hs (heq ▸ hi)).symm

theorem Linked.remember {columns : Option (List Label)} {nodes : List Node}
    (h : Linked m nodes L) (hs : ∀ q ∈ nodes, s.id ∉ q.site.ids) :
    Linked (m.withInput s columns) nodes L := by
  induction h with
  | nil => exact .nil
  | cons hfirst _ ih =>
    rw [List.forall_mem_cons] at hs
    exact .cons (hfirst.remember hs.1) (ih hs.2)

/-- A node whose fit is under way: it has forgotten its columns. -/
theorem Sound.forget (h : n.Sound w.memory) : n.Sound (w.memory.withInput n.site none) :=
  h.extend (w.memory.extends_withInput n.site none)

theorem Sound.label (h : n.Sound w.memory) (hfit : n.plan.fit env n.site X y w = (.ok (), v)) :
    (v.memory.label n.site).isText = true := by
  have hafter := Plan.fit_extends env n.plan X y h.holds.taken
  rw [hfit] at hafter
  exact (h.extend hafter).named _ n.site.id_mem_ids

theorem settles_transformer (t : Transformer) : Settles env ⟨.transformer t, s⟩ := by
  intro X y w v hsound htexts hfit
  have hproper : t.BuiltIn := hsound.proper.self
  have hrecognizes : Recognizes v.memory ⟨.transformer t, s⟩ X.labels :=
    recognizes_leaf (inputColumns_fit hsound.holds.taken hfit) htexts rfl
  simp only [Plan.fit] at hfit
  obtain ⟨_, u, hbody, hv⟩ := Work.ok_of_fitting hfit
  obtain ⟨learned, u', hX, hu', hlast⟩ := Work.ok_of_logged hbody
  have hlearned : v.memory.learned s = learned.elim .nothing .fitted := by
    rw [hv, Work.memory_of_setLearned hlast]
    exact Memory.learned_remembered (hu' ▸ hsound.forget.holds.id_taken)
  unfold Memory.learned at hlearned
  cases learned with
  | none =>
    refine ⟨[], hrecognizes, carries_transformer fun f hf => ?_, fun _ hl => nomatch hl⟩
    rw [hlearned] at hf
    cases hf
  | some f =>
    obtain ⟨M, hM, hcarries⟩ := (hproper.ofColumns htexts hX).carries htexts
    refine ⟨M, hrecognizes, carries_transformer fun f' hf' => ?_, hM⟩
    rw [hlearned] at hf'
    obtain rfl : f = f' := Learned.fitted.inj hf'
    exact hcarries

theorem settles_learner (l : Learner) : Settles env ⟨.learner l, s⟩ := by
  intro X y w v hsound htexts hfit
  have hproper : l.NamesClasses := hsound.proper.self
  have hname := hsound.label hfit
  have hrecognizes : Recognizes v.memory ⟨.learner l, s⟩ X.labels :=
    recognizes_leaf (inputColumns_fit hsound.holds.taken hfit) htexts rfl
  simp only [Plan.fit] at hfit
  obtain ⟨y', u, hbody, hv⟩ := Work.ok_of_fitting hfit
  cases y' with
  | none => cases congrArg Prod.fst hbody
  | some y' =>
    obtain ⟨learned, u', hX, hu', hlast⟩ := Work.ok_of_logged hbody
    have hlearned : v.memory.learned s = learned.elim .nothing .model := by
      rw [hv, Work.memory_of_setLearned hlast]
      exact Memory.learned_remembered (hu' ▸ hsound.forget.holds.id_taken)
    unfold Memory.learned at hlearned
    have hclasses : ∀ f, v.memory.probabilitiesOf l s = some f →
        ∃ classes : List Label, ∀ F P : Frame, (f F).outcome = .ok P → P.labels = classes := by
      intro f hf
      unfold Memory.probabilitiesOf at hf
      rw [hlearned] at hf
      cases learned with
      | none => cases hmode : l.output <;> simp only [hmode, Option.elim, reduceCtorEq] at hf
      | some model =>
        cases hmode : l.output <;> simp only [hmode, Option.elim, reduceCtorEq] at hf
        exact hproper X y' model f hX hf
    obtain ⟨M, hM, hcarries⟩ := exists_carries_learner hname hclasses X.labels
    exact ⟨M, hrecognizes, hcarries, hM⟩

section Composites

variable (ih : ∀ q ∈ zipParts ps s.parts, q.Settles env)
include ih

theorem settles_sequential : Settles env ⟨.sequential ps, s⟩ := by
  intro X y w v hsound htexts hfit
  have hself := inputColumns_fit hsound.holds.taken hfit
  simp only [Plan.fit] at hfit
  obtain ⟨y', u, hbody, hv⟩ := Work.ok_of_fitting hfit
  have hparts := fitChain_linked ih hsound.forget.holds.parts (fun q => hsound.forget.part) htexts
    hbody
  refine settled_sequential hself ?_ htexts
  rw [hv]
  exact hparts.remember fun q => hsound.notMem_part

theorem settles_parallel : Settles env ⟨.parallel ps, s⟩ := by
  intro X y w v hsound htexts hfit
  have hself := inputColumns_fit hsound.holds.taken hfit
  simp only [Plan.fit] at hfit
  obtain ⟨y', u, hbody, hv⟩ := Work.ok_of_fitting hfit
  have hparts := fitAll_settled ih hsound.forget.holds.parts (fun q => hsound.forget.part) htexts
    hbody
  refine settled_parallel hself htexts fun q hq => ?_
  obtain ⟨M, hM⟩ := hparts q hq
  rw [hv]
  exact ⟨M, hM.remember (hsound.notMem_part hq)⟩

theorem settles_vote : Settles env ⟨.vote ps, s⟩ := by
  intro X y w v hsound htexts hfit
  have hself := inputColumns_fit hsound.holds.taken hfit
  have hname := hsound.label hfit
  simp only [Plan.fit] at hfit
  obtain ⟨y', u, hbody, hv⟩ := Work.ok_of_fitting hfit
  have hparts := fitAll_settled ih hsound.forget.holds.parts (fun q => hsound.forget.part) htexts
    hbody
  refine ⟨_, settled_ensemble rfl hself htexts hname fun F q A hF hasks => ?_⟩
  cases hasks with
  | member hq =>
    obtain ⟨M, hM⟩ := hparts q hq
    rw [hv, hF]
    exact (hM.remember (hsound.notMem_part hq)).recognizes

theorem settles_best (policy : SelectionPolicy) : Settles env ⟨.best ps policy, s⟩ := by
  intro X y w v hsound htexts hfit
  have hself := inputColumns_fit hsound.holds.taken hfit
  have hname := hsound.label hfit
  change Plan.fit env (.best ps policy) s X y w = _ at hfit
  rw [Plan.fit_best] at hfit
  obtain ⟨y', u, hbody, hv⟩ := Work.ok_of_fitting hfit
  obtain ⟨target, hrest⟩ := Work.ok_of_requireTarget hbody
  obtain ⟨defaults, w₁, hw₁, hrest₁⟩ := Work.ok_of_steady (.settings env) hrest
  obtain ⟨metric, -, hrest₂⟩ := Work.ok_of_except hrest₁
  obtain ⟨scores, w₂, hscores, hrest₃⟩ := Work.ok_of_bind hrest₂
  -- The tree is as it was before when one of the candidates is chosen.
  have hsound₁ : Sound w₁.memory ⟨.best ps policy, s⟩ := hw₁ ▸ hsound.forget
  have hkept : Memory.Extends [] w₁.memory w₂.memory :=
    Plan.candidateScores_extends hsound₁.holds.taken hscores
  have hsound₂ := hsound₁.extend hkept
  unfold Plan.fitChosen at hrest₃
  rw [Work.run_memory_bind] at hrest₃
  cases hbest : bestIndex metric scores with
  | none =>
    simp only [hbest] at hrest₃
    cases congrArg Prod.fst hrest₃
  | some i =>
    simp only [hbest] at hrest₃
    obtain ⟨_, w₃, hlearn, hrest₄⟩ := Work.ok_of_bind hrest₃
    have hw₃ := Work.memory_of_setLearned hlearn
    have hsound₃ : Sound w₃.memory ⟨.best ps policy, s⟩ :=
      hw₃ ▸ hsound₂.extend (w₂.memory.extends_withLearned s _)
    have hchosen := fitAt_settled ih hsound₃.holds.parts (fun q => hsound₃.part) htexts hrest₄
    have hafter := Plan.fitAt_extends hsound₃.holds.parts.taken hrest₄
    have hlearned :
        v.memory.learned s = .choice (some i) ((w₂.memory.labelsOf s.parts).zip scores) := by
      rw [hv, Memory.learned_withInput (hsound₃.holds.extend hafter).id_taken,
        Plan.learned_eq_of_extends hafter hsound₃.holds.id_taken hsound₃.holds.id_notMem_parts, hw₃]
      exact Memory.learned_withLearned hsound₂.holds.id_taken _
    have hwinner := Plan.winner_eq_of_learned hlearned
    refine ⟨_, settled_ensemble rfl hself htexts hname fun F q A hF hasks => ?_⟩
    cases hasks with
    | member hq =>
      have hq' : (zipParts ps s.parts)[i]? = some q := by
        have hmember : q ∈ ((zipParts ps s.parts)[(v.memory.winner s).getD 0]?).toList := hq
        rwa [hwinner, Option.mem_toList] at hmember
      obtain ⟨M, hM⟩ := hchosen q hq'
      rw [hv, hF]
      exact (hM.remember (hsound.notMem_part (List.mem_of_getElem? hq'))).recognizes

end Composites

theorem settles_bagging (ih : ∀ r ∈ s.rest, Settles env ⟨t, r⟩) (settings : BaggingSettings) :
    Settles env ⟨.bagging t settings, s⟩ := by
  intro X y w v hsound htexts hfit
  have hself := inputColumns_fit hsound.holds.taken hfit
  have hname := hsound.label hfit
  change Plan.fit env (.bagging t settings) s X y w = _ at hfit
  rw [Plan.fit_bagging] at hfit
  obtain ⟨y', u, hbody, hv⟩ := Work.ok_of_fitting hfit
  obtain ⟨target, hrest⟩ := Work.ok_of_requireTarget hbody
  obtain ⟨asked, w₁, hw₁, hrest₁⟩ := Work.ok_of_steady (Plan.steady_seedValue env settings) hrest
  obtain ⟨source, -, hrest₂⟩ := Work.ok_of_except hrest₁
  obtain ⟨last, u', hmembers, hlast⟩ := Work.ok_of_bind hrest₂
  obtain rfl : u' = u := congrArg Prod.snd hlast
  have hsound₁ : Sound w₁.memory ⟨.bagging t settings, s⟩ := hw₁ ▸ hsound.forget
  have hsettled := fitDrawn_settled ih hsound₁.holds.rest
    (fun r hr => hsound₁.part (List.mem_map_of_mem hr)) htexts hmembers
  refine ⟨_, settled_ensemble rfl hself htexts hname fun F q A hF hasks => ?_⟩
  cases hasks with
  | member hq =>
    obtain ⟨r, hr, rfl⟩ := List.mem_map.1 hq
    obtain ⟨M, hM⟩ := hsettled r hr
    rw [hv, hF]
    exact (hM.remember (hsound.notMem_part hq)).recognizes

theorem stacked_of_run {α : Type} {a : α} {settings : StackSettings} {f : Frame → Work α}
    (h : (Plan.stackedFeatures ps settings s X >>= f) w = (.ok a, v)) :
    ∃ A u, stacked w.memory ps settings s X = .ok A ∧ u.memory = w.memory ∧
      f A u = (.ok a, v) := by
  unfold Plan.stackedFeatures at h
  rw [bind_assoc, Work.run_memory_bind, bind_assoc] at h
  obtain ⟨members, u, hmembers, hu, hrest⟩ := Work.ok_of_logged h
  obtain ⟨A, hA, hrest⟩ := Work.ok_of_except hrest
  refine ⟨A, u, ?_, hu, hrest⟩
  rw [Plan.labelsOfAll_outcome] at hmembers
  unfold stacked
  rw [hmembers]
  exact hA

theorem settles_stack (iht : Settles env ⟨t, s.first⟩)
    (ih : ∀ q ∈ zipParts ps s.rest, q.Settles env) (settings : StackSettings) :
    Settles env ⟨.stack t ps settings, s⟩ := by
  intro X y w v hsound htexts hfit
  have hself := inputColumns_fit hsound.holds.taken hfit
  have hname := hsound.label hfit
  simp only [Plan.fit] at hfit
  obtain ⟨y', u, hbody, hv⟩ := Work.ok_of_fitting hfit
  obtain ⟨target, hrest⟩ := Work.ok_of_requireTarget hbody
  obtain ⟨defaults, w₁, hw₁, hrest₁⟩ := Work.ok_of_steady (.settings env) hrest
  obtain ⟨split, -, hrest₂⟩ := Work.ok_of_except hrest₁
  obtain ⟨codes, -, hrest₃⟩ := Work.ok_of_except hrest₂
  obtain ⟨_, w₂, hlearn, hrest₄⟩ := Work.ok_of_bind hrest₃
  obtain ⟨_, w₃, hmembers, hrest₅⟩ := Work.ok_of_bind hrest₄
  obtain ⟨A, w₄, hA, hw₄, hstacker⟩ := stacked_of_run hrest₅
  have hsound₂ : Sound w₂.memory ⟨.stack t ps settings, s⟩ := by
    rw [Work.memory_of_setLearned hlearn, hw₁]
    exact hsound.forget.extend (Memory.extends_withLearned _ _ _)
  have hlabels : ∀ rows, (X.takeRows rows).labels = X.labels := Frame.labels_takeRows X
  have hsettled := fitAll_settled ih hsound₂.holds.rest
    (fun q hq => hsound₂.part (List.mem_cons_of_mem _ hq)) ((hlabels _).symm ▸ htexts) hmembers
  have hkept₃ := Plan.fitAll_extends env ps (X.takeRows split.train)
    (some (target.takeRows split.train)) hsound₂.holds.rest.taken
  rw [hmembers] at hkept₃
  have hsound₃ := hsound₂.extend hkept₃
  rw [← hw₄] at hsound₃ hsettled hA
  have hkept := Plan.fit_extends env t A (some (target.takeRows split.test))
    (hsound₃.part List.mem_cons_self).holds.taken
  rw [hstacker] at hkept
  -- The stacker is fitted on other rows than the members, but under the labels it is shown later.
  have hAlabels : A.labels = stackedLabels w₄.memory ps settings s X.labels := by
    rw [labels_stacked hA, hlabels]
  have hnames : v.memory.labelsOf s.rest = w₄.memory.labelsOf s.rest := by
    rw [hv, Memory.labelsOf_extend (u.memory.extends_withInput s _)
      (hsound₃.extend hkept).holds.rest.taken,
      Memory.labelsOf_extend hkept hsound₃.holds.rest.taken]
  have hAtexts : ∀ l ∈ A.labels, l.isText = true := by
    rw [hAlabels]
    refine texts_stackedLabels (fun l hl => ?_) htexts
    obtain ⟨r, hr, rfl⟩ := List.mem_map.1 hl
    exact hsound₃.named _ (Site.mem_ids_of_mem_idsOf_rest (Site.mem_idsOf.2 ⟨r, hr, r.id_mem_ids⟩))
  refine ⟨_, settled_stack hself htexts hname (fun q hq => ?_) ?_⟩
  · obtain ⟨M, hM⟩ := hsettled q hq
    rw [hlabels] at hM
    have hpart : q ∈ (Node.mk (.stack t ps settings) s).parts := List.mem_cons_of_mem _ hq
    have hM := hM.extend hkept (hsound₃.part hpart).holds.taken fun i hi hfirst =>
      (hsound₃.holds.first_rest hsound₃.proper.self).disjoint hfirst (ids_of_mem_zipParts hq hi)
    rw [hv]
    exact (hM.remember (hsound.notMem_part hpart)).recognizes
  · obtain ⟨M, hM⟩ := iht A _ w₄ u (hsound₃.part List.mem_cons_self) hAtexts hstacker
    rw [stackedLabels_eq hnames, ← hAlabels, hv]
    exact (hM.remember (hsound.notMem_part List.mem_cons_self)).recognizes

/-- By induction over the tree. -/
theorem settles (env : Surroundings) (n : Node) : n.Settles env := by
  induction n using Node.induction with
  | step n ih =>
  obtain ⟨p, s⟩ := n
  cases p with
  | transformer t => exact settles_transformer t
  | learner l => exact settles_learner l
  | element e => exact fun _ _ _ _ hsound => hsound.proper.self.elim
  | sequential ps => exact settles_sequential ih
  | parallel ps => exact settles_parallel ih
  | vote ps => exact settles_vote ih
  | stack t ps settings =>
    exact settles_stack (ih _ List.mem_cons_self) (fun q hq => ih q (List.mem_cons_of_mem _ hq))
      settings
  | best ps policy => exact settles_best ih policy
  | bagging t settings =>
    exact settles_bagging (fun r hr => ih ⟨t, r⟩ (List.mem_map_of_mem hr)) settings

end Node
end ColumnFlow
