import ColumnFlow.Proofs.Node.Trial

/-!
# Refitting

Every node is fitted as if for the first time: fitting two trees of one plan on the same data ends
in the same way, and trees that were fitted agree. By induction on the plan, one case for every
kind of node.
-/
namespace ColumnFlow.Plan

variable {m m' v v' : Memory} {p t : Plan} {ps : List Plan} {s s' : Site} {ss ss' : List Site}
  {env : Surroundings} {w w' : Workspace} {X : Frame} {y : Option Series}

/-! What a node gets and learns for itself. -/

theorem Ready.sameHead (h : Ready m m' p s s') (columns : Option (List Label)) :
    (m.withInput s columns).SameHead (m'.withInput s' columns) s s' :=
  Memory.sameHead_withInput h.left.id_taken h.right.id_taken h.alike.label_eq columns

theorem Ready.slot_eq (h : Ready m m' p s s') (hl : m.learned s = m'.learned s')
    (columns : Option (List Label)) :
    (m.withInput s columns).slot s.id = (m'.withInput s' columns).slot s'.id :=
  Memory.slot_withInput_eq h.left.id_taken h.right.id_taken h.alike.label_eq hl columns

theorem Ready.learn (h : Ready m m' p s s') (hk : Memory.Kept s.ids s'.ids m m' v v')
    (l : Learned) :
    Memory.Kept s.ids s'.ids m m' (v.withLearned s l) (v'.withLearned s' l) ∧
      (v.withLearned s l).learned s = (v'.withLearned s' l).learned s' := by
  have hv := h.keep hk
  refine ⟨hk.self ⟨v.extends_withLearned s l, v'.extends_withLearned s' l⟩, ?_⟩
  rw [Memory.learned_withLearned hv.left.id_taken, Memory.learned_withLearned hv.right.id_taken]

/-- The columns of a node do not matter to its parts. -/
theorem agree_withInput {r r' : Site} (h : Agree m m' p r r') (hs : s.id ∉ r.ids)
    (hs' : s'.id ∉ r'.ids) (columns : Option (List Label)) :
    Agree (m.withInput s columns) (m'.withInput s' columns) p r r' := by
  refine h.congr (fun id hid => Memory.slot_withInput_of_ne fun heq => hs ?_)
    fun id hid => Memory.slot_withInput_of_ne fun heq => hs' ?_
  · rw [← heq]
    exact hid
  · rw [← heq]
    exact hid

theorem each_withInput (h : Each (Agree m m') ps ss ss') (hs : s.id ∉ Site.idsOf ss)
    (hs' : s'.id ∉ Site.idsOf ss') (columns : Option (List Label)) :
    Each (Agree (m.withInput s columns) (m'.withInput s' columns)) ps ss ss' :=
  h.imp fun _ _ r hr r' hr' ha => agree_withInput ha
    (fun hid => hs (Site.mem_idsOf.2 ⟨r, hr, hid⟩))
    (fun hid => hs' (Site.mem_idsOf.2 ⟨r', hr', hid⟩)) columns

/-! Leaves. -/

theorem refits_transformer (t : Transformer) : Refits env (.transformer t) := by
  intro s s' X y w w' h
  simp only [fit]
  refine Work.fitting_matched (R := fun m m' => m.learned s = m'.learned s')
    (fun _ v v' hv => ?_) fun m m' hk hl => ?_
  · refine .keep (.logged _) hv fun fitted u u' hu => ?_
    rw [Work.run_setLearned, Work.run_setLearned]
    exact h.learn hu _
  · simp only [Agree]
    exact (h.keep hk).slot_eq hl _

theorem refits_learner (l : Learner) : Refits env (.learner l) := by
  intro s s' X y w w' h
  simp only [fit]
  refine Work.fitting_matched (R := fun m m' => m.learned s = m'.learned s')
    (fun y v v' hv => ?_) fun m m' hk hl => ?_
  · cases y with
    | none =>
      dsimp only
      rw [Work.run_labelOf_bind, Work.run_labelOf_bind, (h.keep hv).alike.label_eq]
      exact .throw _ hv
    | some y =>
      refine .keep (.logged _) hv fun model u u' hu => ?_
      rw [Work.run_setLearned, Work.run_setLearned]
      exact h.learn hu _
  · simp only [Agree]
    exact (h.keep hk).slot_eq hl _

theorem refits_element (e : Element) : Refits env (.element e) := by
  intro s s' X y w w' h
  simp only [fit]
  refine Work.fitting_matched (R := fun _ _ => True) (fun y v v' hv => ?_) fun m m' hk _ => ?_
  · rw [Work.run_labelOf_bind, Work.run_labelOf_bind, (h.keep hv).alike.label_eq]
    refine ((Work.Steady.logged _).ends hv).mono (fun _ _ _ _ hu => ⟨hu.2, trivial⟩)
      fun _ _ hu => hu
  · simp only [Agree]
    exact (h.keep hk).sameHead _

/-! Composites and votes, which are their parts. -/

/-- A node with nothing of its own is fitted alike if its parts are. -/
theorem refits_parts (h : Ready w.memory w'.memory p s s')
    (hall : ReadyAll w.memory w'.memory ps s.parts s'.parts)
    (body : List Site → Option Series → Work Unit)
    (hbody : ∀ y v v', ReadyAll v.memory v'.memory ps s.parts s'.parts →
      Work.Matched
        (fun _ _ m m' =>
          Memory.Kept (Site.idsOf s.parts) (Site.idsOf s'.parts) v.memory v'.memory m m' ∧
            Each (Agree m m') ps s.parts s'.parts)
        (Memory.Kept (Site.idsOf s.parts) (Site.idsOf s'.parts) v.memory v'.memory)
        (body s.parts y v) (body s'.parts y v')) :
    Work.Matched
      (fun _ _ m m' => Memory.Kept s.ids s'.ids w.memory w'.memory m m' ∧
        (m.SameHead m' s s' ∧ Each (Agree m m') ps s.parts s'.parts))
      (Memory.Kept s.ids s'.ids w.memory w'.memory) (Work.fitting s X y (body s.parts) w)
      (Work.fitting s' X y (body s'.parts) w') := by
  refine Work.fitting_matched (R := fun m m' => Each (Agree m m') ps s.parts s'.parts)
    (fun y v v' hv => ?_) fun m m' hk heach => ⟨(h.keep hk).sameHead _, ?_⟩
  · exact (hbody y v v' (hall.keep hv)).mono (fun _ _ _ _ hm => ⟨hv.parts hm.1, hm.2⟩)
      fun _ _ hm => hv.parts hm
  · exact each_withInput heach h.left.id_notMem_parts h.right.id_notMem_parts _

theorem refits_sequential (ih : ∀ p ∈ ps, Refits env p) : Refits env (.sequential ps) := by
  intro s s' X y w w' h
  have hall := h.alike
  simp only [Alike, alikeAll_iff] at hall
  simp only [fit, Agree, agreeAll_iff]
  exact refits_parts h ⟨hall.2, h.left.parts, h.right.parts⟩
    (fun ss y => fitChain env ps ss X y) fun _ _ _ hv => fitChain_matched ih hv

theorem refits_parallel (ih : ∀ p ∈ ps, Refits env p) : Refits env (.parallel ps) := by
  intro s s' X y w w' h
  have hall := h.alike
  simp only [Alike, alikeAll_iff] at hall
  simp only [fit, Agree, agreeAll_iff]
  exact refits_parts h ⟨hall.2, h.left.parts, h.right.parts⟩
    (fun ss y => fitAll env ps ss X y) fun _ _ _ hv => fitAll_matched ih hv

theorem refits_vote (ih : ∀ p ∈ ps, Refits env p) : Refits env (.vote ps) := by
  intro s s' X y w w' h
  have hall := h.alike
  simp only [Alike, alikeAll_iff] at hall
  simp only [fit, Agree, agreeAll_iff]
  exact refits_parts h ⟨hall.2, h.left.parts, h.right.parts⟩
    (fun ss y => fitAll env ps ss X y) fun _ _ _ hv => fitAll_matched ih hv

/-! Ensembles that learn something of their own. -/

theorem requireTarget_matched {P : Memory → Memory → Prop} {ensemble : String}
    (hP : P w.memory w'.memory) (hlabel : w.memory.label s = w'.memory.label s') :
    Work.Matched (fun a b m m' => a = b ∧ P m m') P (Work.requireTarget ensemble s y w)
      (Work.requireTarget ensemble s' y w') := by
  unfold Work.requireTarget
  cases y with
  | none =>
    dsimp only
    rw [Work.run_labelOf_bind, Work.run_labelOf_bind, hlabel]
    exact .throw _ hP
  | some y => exact .pure ⟨rfl, hP⟩

theorem learned_eq_of_extends {S : List Nat} (hv : Memory.Extends S m v) (hs : s.id < m.next)
    (hS : s.id ∉ S) : v.learned s = m.learned s := by
  unfold Memory.learned
  rw [hv.slot_eq s.id hs hS]

theorem winner_eq_of_learned {winner : Option Nat} {scores : List (Label × Float)}
    (h : m.learned s = .choice winner scores) : m.winner s = winner := by
  unfold Memory.learned at h
  unfold Memory.winner
  rw [h]

theorem stackedFeatures_matched {settings : StackSettings} {P : Memory → Memory → Prop}
    (hP : P w.memory w'.memory) (hl : w.memory.learned s = w'.memory.learned s')
    (heach : Each (Agree w.memory w'.memory) ps s.rest s'.rest) :
    Work.Matched (fun a b m m' => a = b ∧ P m m') P (stackedFeatures ps settings s X w)
      (stackedFeatures ps settings s' X w') := by
  unfold stackedFeatures
  rw [Work.run_memory_bind, Work.run_memory_bind]
  rw [labelsOfAll_eq heach (fun p _ => answers _ _ p) X, labelsOf_eq heach fun _ _ _ h => h.head.1,
    Stacking.stored_eq hl]
  exact ((Work.Steady.logged _).bind fun _ => .except _).ends hP

theorem refits_stack {settings : StackSettings} (iht : Refits env t)
    (ih : ∀ p ∈ ps, Refits env p) : Refits env (.stack t ps settings) := by
  intro s s' X y w w' h
  have halike := h.alike
  simp only [Alike, alikeAll_iff] at halike
  obtain ⟨-, hne, hne', hfirst, hrest⟩ := halike
  have hids := h.left.first_rest hne
  have hids' := h.right.first_rest hne'
  have htop : Ready w.memory w'.memory t s.first s'.first := ⟨hfirst, hids.left, hids'.left⟩
  have hall : ReadyAll w.memory w'.memory ps s.rest s'.rest := ⟨hrest, hids.right, hids'.right⟩
  simp only [fit]
  refine Work.fitting_matched (R := fun m m' => m.learned s = m'.learned s' ∧
    Agree m m' t s.first s'.first ∧ Each (Agree m m') ps s.rest s'.rest)
    (fun y v v' hv => ?_) fun m m' hk hm => ?_
  · refine .bind (requireTarget_matched hv (h.keep hv).alike.label_eq) (fun _ _ hk => hk)
      fun y y' v v' hv => ?_
    obtain ⟨rfl, hv⟩ := hv
    refine .keep (.settings env) hv fun defaults v v' hv => ?_
    refine .keep (.except _) hv fun split v v' hv => ?_
    refine .keep (.except _) hv fun codes v v' hv => ?_
    rw [Work.run_setLearned_bind, Work.run_setLearned_bind]
    obtain ⟨hv, hl⟩ := h.learn hv (.codes codes)
    refine .bind (fitAll_matched ih (hall.keep hv)) (fun _ _ hu => hv.rest hu)
      fun _ _ u u' hu => ?_
    have hready := h.keep hv
    rw [← learned_eq_of_extends hu.1.1 hready.left.id_taken hready.left.id_notMem_rest,
      ← learned_eq_of_extends hu.1.2 hready.right.id_taken hready.right.id_notMem_rest] at hl
    refine .bind (stackedFeatures_matched (P := fun m m' =>
      Memory.Kept s.ids s'.ids w.memory w'.memory m m' ∧ m.learned s = m'.learned s' ∧
        Each (Agree m m') ps s.rest s'.rest) ⟨hv.rest hu.1, hl, hu.2⟩ hl hu.2)
      (fun _ _ hz => hz.1) fun stacked _ u u' hu => ?_
    obtain ⟨rfl, hu, hl, heach⟩ := hu
    have hready := h.keep hu
    refine (iht _ _ _ _ u u' (htop.keep hu)).mono (fun _ _ n n' hn => ⟨?_, ?_, hn.2, ?_⟩)
      fun _ _ hn => ?_
    · exact hu.first hn.1
    · rw [learned_eq_of_extends hn.1.1 hready.left.id_taken (hready.left.id_notMem_first hne),
        learned_eq_of_extends hn.1.2 hready.right.id_taken (hready.right.id_notMem_first hne'), hl]
    · exact extend_agree heach (hall.keep hu).left.taken (hall.keep hu).right.taken hn.1.1 hn.1.2
        (fun _ hid hmem => hids.disjoint hmem hid) fun _ hid hmem => hids'.disjoint hmem hid
    · exact hu.first hn
  · simp only [Agree, agreeAll_iff]
    refine ⟨(h.keep hk).slot_eq hm.1 _, ?_, ?_⟩
    · exact agree_withInput hm.2.1 (h.left.id_notMem_first hne) (h.right.id_notMem_first hne') _
    · exact each_withInput hm.2.2 h.left.id_notMem_rest h.right.id_notMem_rest _

/-- The scores of the candidates under a policy. -/
def candidateScores (env : Surroundings) (policy : SelectionPolicy) (metric : Metric)
    (defaults : Settings) (ps : List Plan) (s : Site) (X : Frame) (y : Series) :
    Work (List Float) :=
  let seed := policy.seed.unlessNull (.int defaults.randomState)
  match policy.strategy with
  | .scalar (.text "holdout") => do
    let split ← policy.holdout defaults seed X y
    holdoutScores env metric ps s.parts X y split
  | .scalar (.text "cv") => do
    let validator ← policy.validator env metric seed
    foldScores env validator s ps s.parts X y
  | strategy => throw (.misuse (.selectionStrategy strategy))

/-- Fits the candidate with the best score on all rows. -/
def fitChosen (env : Surroundings) (metric : Metric) (ps : List Plan) (s : Site) (X : Frame)
    (y : Series) (scores : List Float) : Work Unit := do
  let memory ← Work.memory
  let named := (memory.labelsOf s.parts).zip scores
  match bestIndex metric scores with
  | none =>
    Work.setLearned s (.choice (memory.winner s) named)
    throw (.noFiniteScore (memory.label s) named)
  | some i =>
    Work.setLearned s (.choice (some i) named)
    fitAt env ps s.parts i X y

theorem fit_best (policy : SelectionPolicy) (s : Site) :
    fit env (.best ps policy) s X y = Work.fitting s X y (fun y => do
      let y ← Work.requireTarget "BestLearner" s y
      let defaults ← Work.settings env
      let metric ← env.metrics.get (policy.metric.given (.text defaults.defaultMetric))
      let scores ← candidateScores env policy metric defaults ps s X y
      fitChosen env metric ps s X y scores) := by
  rw [fit]
  congr 1
  funext y
  congr 1
  funext y
  congr 1
  funext defaults
  congr 1
  funext metric
  dsimp only
  split
  · next hholdout =>
    simp only [candidateScores, hholdout]
    exact (bind_assoc _ _ _).symm
  · next hcv =>
    simp only [candidateScores, hcv]
    exact (bind_assoc _ _ _).symm
  · simp only [candidateScores]
    rfl

theorem steady_create (env : Surroundings) (r : ValidatorRequest) :
    Work.Steady (Validator.create env r) := by
  unfold Validator.create
  refine .bind (.settings env) fun defaults => .bind (.except _) fun metric =>
    .bind (.except _) fun count => ?_
  simp only [Work.throw_bind]
  split
  · exact .throw _
  · split
    · exact .throw _
    · exact .pure _

theorem candidateScores_matched (ih : ∀ p ∈ ps, Refits env p) {policy : SelectionPolicy}
    {metric : Metric} {defaults : Settings} {y : Series} (h : Ready w.memory w'.memory p s s')
    (hall : ReadyAll w.memory w'.memory ps s.parts s'.parts) :
    Work.Matched (fun a b m m' => a = b ∧ Memory.Kept [] [] w.memory w'.memory m m')
      (Memory.Kept [] [] w.memory w'.memory)
      (candidateScores env policy metric defaults ps s X y w)
      (candidateScores env policy metric defaults ps s' X y w') := by
  have hrefl := Memory.Kept.refl [] [] w.memory w'.memory
  -- The two runs go the way of one strategy, which is found out before they start.
  generalize hx : candidateScores env policy metric defaults ps s X y = x
  generalize hx' : candidateScores env policy metric defaults ps s' X y = x'
  unfold candidateScores at hx
  split at hx
  · next hholdout =>
    simp only [candidateScores, hholdout] at hx'
    rw [← hx, ← hx']
    refine .keep (.except _) hrefl fun split v v' hk => ?_
    exact (holdoutScores_matched ih (hall.keep hk)).mono
      (fun _ _ _ _ hu => ⟨hu.1, hk.after hu.2⟩) fun _ _ hu => hk.after hu
  · next hcv =>
    simp only [candidateScores, hcv] at hx'
    rw [← hx, ← hx']
    refine .keep (steady_create env _) hrefl fun validator v v' hk => ?_
    have hlabel : ∀ m m', Memory.Kept [] [] v.memory v'.memory m m' → m.label s = m'.label s' :=
      fun m m' hm => ((h.keep hk).keep hm).alike.label_eq
    exact (foldScores_matched ih (hall.keep hk) hlabel).mono
      (fun _ _ _ _ hu => ⟨hu.1, hk.after hu.2⟩) fun _ _ hu => hk.after hu
  · next hother hother' =>
    simp only [candidateScores] at hx'
    rw [← hx, ← hx']
    exact .throw _ hrefl

theorem fitChosen_matched (ih : ∀ p ∈ ps, Refits env p) (h : Ready w.memory w'.memory p s s')
    (hall : ReadyAll w.memory w'.memory ps s.parts s'.parts) {metric : Metric}
    {scores : List Float} {y : Series} {u u' : Workspace}
    (hu : Memory.Kept s.ids s'.ids w.memory w'.memory u.memory u'.memory) :
    Work.Matched
      (fun _ _ m m' => Memory.Kept s.ids s'.ids w.memory w'.memory m m' ∧
        m.learned s = m'.learned s' ∧
          ∃ i, m.winner s = some i ∧ AgreeAt m m' ps s.parts s'.parts i)
      (Memory.Kept s.ids s'.ids w.memory w'.memory)
      (fitChosen env metric ps s X y scores u) (fitChosen env metric ps s' X y scores u') := by
  unfold fitChosen
  rw [Work.run_memory_bind, Work.run_memory_bind]
  rw [labelsOf_eq (hall.keep hu).alike fun _ _ _ h => h.label_eq, (h.keep hu).alike.label_eq]
  cases bestIndex metric scores with
  | none =>
    dsimp only
    rw [Work.run_setLearned_bind, Work.run_setLearned_bind]
    exact .throw _
      (hu.self ⟨u.memory.extends_withLearned s _, u'.memory.extends_withLearned s' _⟩)
  | some i =>
    dsimp only
    rw [Work.run_setLearned_bind, Work.run_setLearned_bind]
    have hnew := Memory.learned_withLearned (h.keep hu).left.id_taken
      (.choice (some i) ((u'.memory.labelsOf s'.parts).zip scores))
    obtain ⟨hv, hl⟩ := h.learn hu (.choice (some i) ((u'.memory.labelsOf s'.parts).zip scores))
    have hready := h.keep hv
    refine (fitAt_matched ih (hall.keep hv)).mono (fun _ _ n n' hn => ⟨?_, ?_, i, ?_, hn.2⟩)
      fun _ _ hn => ?_
    · exact hv.parts hn.1
    · rw [learned_eq_of_extends hn.1.1 hready.left.id_taken hready.left.id_notMem_parts, hl,
        learned_eq_of_extends hn.1.2 hready.right.id_taken hready.right.id_notMem_parts]
    · exact winner_eq_of_learned ((learned_eq_of_extends hn.1.1 hready.left.id_taken
        hready.left.id_notMem_parts).trans hnew)
    · exact hv.parts hn

theorem refits_best {policy : SelectionPolicy} (ih : ∀ p ∈ ps, Refits env p) :
    Refits env (.best ps policy) := by
  intro s s' X y w w' h
  have halike := h.alike
  simp only [Alike, alikeAll_iff] at halike
  have hall : ReadyAll w.memory w'.memory ps s.parts s'.parts :=
    ⟨halike.2, h.left.parts, h.right.parts⟩
  rw [fit_best, fit_best]
  refine Work.fitting_matched (R := fun m m' => m.learned s = m'.learned s' ∧
    ∃ i, m.winner s = some i ∧ AgreeAt m m' ps s.parts s'.parts i)
    (fun y v v' hv => ?_) fun m m' hk hm => ?_
  · refine .bind (requireTarget_matched hv (h.keep hv).alike.label_eq) (fun _ _ hk => hk)
      fun y y' v v' hv => ?_
    obtain ⟨rfl, hv⟩ := hv
    refine .keep (.settings env) hv fun defaults v v' hv => ?_
    refine .keep (.except _) hv fun metric v v' hv => ?_
    refine .bind (candidateScores_matched ih (h.keep hv) (hall.keep hv))
      (fun _ _ hu => hv.after hu) fun a b u u' hu => ?_
    obtain ⟨rfl, hu⟩ := hu
    exact fitChosen_matched ih h hall (hv.after hu)
  · simp only [Agree]
    obtain ⟨hl, i, hi, hat⟩ := hm
    have hready := h.keep hk
    refine ⟨hready.slot_eq hl _, i, ?_, hat.congr_of fun p _ r hr r' hr' ha => ?_⟩
    · rw [← hi]
      unfold Memory.winner
      rw [Memory.slot_withInput_self hready.left.id_taken]
    · exact agree_withInput ha
        (fun hid => h.left.id_notMem_parts (Site.mem_idsOf.2 ⟨r, hr, hid⟩))
        (fun hid => h.right.id_notMem_parts (Site.mem_idsOf.2 ⟨r', hr', hid⟩)) _

/-- The seed of a bagging ensemble, by default that of the settings. -/
def seedValue (env : Surroundings) (settings : BaggingSettings) : Work Value :=
  if settings.seed.isNull then do return .int (← Work.settings env).randomState
  else return settings.seed

/-- Where the samples of a bagging ensemble come from. -/
def sampleSource (X : Frame) (asked : Value) : Except Failure Draw.Twister :=
  match Domain.whole? asked with
  | some seed =>
    if !Draw.isSeed seed then .error (.unusable .value)
    else if X.rows = 0 then .error (.unusable .value)
    else .ok (Draw.Twister.ofSeed seed.toNat)
  | none => .error (.unusable .type)

theorem sampleSource_bind (asked : Value) (next : Draw.Twister → Work Unit) :
    (liftM (sampleSource X asked) >>= next : Work Unit) =
      match Domain.whole? asked with
      | some seed =>
        if !Draw.isSeed seed then throw (.unusable .value)
        else if X.rows = 0 then throw (.unusable .value)
        else next (Draw.Twister.ofSeed seed.toNat)
      | _ => throw (.unusable .type) := by
  unfold sampleSource
  cases Domain.whole? asked with
  | none => rfl
  | some seed =>
    dsimp only
    split
    · rfl
    · split <;> rfl

theorem fit_bagging (settings : BaggingSettings) (s : Site) :
    fit env (.bagging t settings) s X y = Work.fitting s X y (fun y => do
      let y ← Work.requireTarget "BaggingEnsemble" s y
      let asked ← seedValue env settings
      let source ← sampleSource X asked
      let _ ← s.rest.foldlM (fun source member => do
        let (rows, source) := Draw.Twister.sample X.rows (settings.draws X.rows) source
        fit env t member (X.takeRows rows) (some (y.takeRows rows))
        return source) source) := by
  rw [fit]
  congr 1
  funext y
  congr 1
  funext y
  cases hseed : settings.seed.isNull with
  | true =>
    simp only [seedValue, hseed, if_true, bind_assoc, pure_bind]
    congr 1
    funext defaults
    refine ((sampleSource_bind _ _).trans ?_).symm
    rfl
  | false =>
    simp only [seedValue, hseed, Bool.false_eq_true, if_false, pure_bind]
    refine ((sampleSource_bind _ _).trans ?_).symm
    rfl

theorem refits_bagging {settings : BaggingSettings} (ih : Refits env t) :
    Refits env (.bagging t settings) := by
  intro s s' X y w w' h
  have halike := h.alike
  simp only [Alike] at halike
  obtain ⟨-, hs, hs', hpairs⟩ := halike
  have hne : s.parts ≠ [] := List.ne_nil_of_length_eq_add_one hs
  have hne' : s'.parts ≠ [] := List.ne_nil_of_length_eq_add_one hs'
  have hall :
      ReadyAll w.memory w'.memory (List.replicate settings.count.toNat t) s.rest s'.rest := by
    refine ⟨each_replicate (by simp [Site.rest, hs]) (by simp [Site.rest, hs']) ?_,
      (h.left.first_rest hne).right, (h.right.first_rest hne').right⟩
    intro r hr r' hr'
    exact hpairs r (Site.mem_parts_of_mem_rest hr) r' (Site.mem_parts_of_mem_rest hr')
  rw [fit_bagging, fit_bagging]
  refine Work.fitting_matched (R := fun m m' =>
    Each (Agree m m') (List.replicate settings.count.toNat t) s.rest s'.rest)
    (fun y v v' hv => ?_) fun m m' hk hm => ?_
  · refine .bind (requireTarget_matched hv (h.keep hv).alike.label_eq) (fun _ _ hk => hk)
      fun y y' v v' hv => ?_
    obtain ⟨rfl, hv⟩ := hv
    have hseed : Work.Steady (seedValue env settings) := by
      unfold seedValue
      split
      · exact .bind (.settings env) fun _ => .pure _
      · exact .pure _
    refine .keep hseed hv fun asked v v' hv => ?_
    refine .keep (.except _) hv fun source v v' hv => ?_
    refine .bind (fitMembers_matched ih (hall.keep hv)) (fun _ _ hn => hv.rest hn)
      fun _ _ u u' hu => ?_
    exact .pure ⟨hv.rest hu.1, hu.2⟩
  · simp only [Agree]
    refine ⟨(h.keep hk).sameHead _, forall₂_of_each_replicate (each_withInput hm ?_ ?_ _)⟩
    · exact h.left.id_notMem_rest
    · exact h.right.id_notMem_rest

theorem refits (env : Surroundings) (p : Plan) : Refits env p := by
  induction p using Plan.induction with
  | transformer t => exact refits_transformer t
  | learner l => exact refits_learner l
  | element e => exact refits_element e
  | sequential ps ih => exact refits_sequential ih
  | parallel ps ih => exact refits_parallel ih
  | vote ps ih => exact refits_vote ih
  | stack t ps settings iht ih => exact refits_stack iht ih
  | best ps policy ih => exact refits_best ih
  | bagging t settings ih => exact refits_bagging ih

end ColumnFlow.Plan
