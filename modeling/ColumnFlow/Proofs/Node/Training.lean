import ColumnFlow.Proofs.Node.Building
import ColumnFlow.Proofs.Node.Locality
import ColumnFlow.Proofs.Node.Trainer

/-!
# Nodes as trainers

What the fit of a node achieves, without regard to where its slots are. A tree is trained alike in
all memories that hold the same for it, so a composite whose parts are nodes of their own trains
each part as if it were alone.
-/
namespace ColumnFlow

namespace Work

variable {α β γ : Type}

/-- How a run ended: the kind of its failure, or what is seen in the memory it left. -/
def ended (o : Except Failure α × Workspace) (look : Memory → β) : Except String β :=
  match o with
  | (.ok _, v) => .ok (look v.memory)
  | (.error e, _) => .error e.kind

theorem ended_bind (x : Work α) (f : α → Work γ) (w : Workspace) (look : Memory → β) :
    ended ((x >>= f) w) look = match x w with
      | (.ok a, v) => ended (f a v) look
      | (.error e, _) => .error e.kind := by
  rw [run_bind]
  rcases x w with ⟨_ | _, v⟩ <;> rfl

theorem ended_except_bind (x : Except Failure α) (f : α → Work γ) (w : Workspace)
    (look : Memory → β) :
    ended (((liftM x : Work α) >>= f) w) look =
      Failure.byKind x >>= fun a => ended (f a w) look := by
  cases x <;> rfl

/-- Notices do not show in how a run ends. -/
theorem ended_logged_bind (x : Logged α) (f : α → Work γ) (w : Workspace) (look : Memory → β) :
    ended (((liftM x : Work α) >>= f) w) look =
      Failure.byKind x.outcome >>= fun a =>
        ended (f a { w with notices := w.notices ++ x.notices }) look := by
  rcases x with ⟨notices, _ | a⟩ <;> rfl

theorem ended_fitting (s : Site) (X : Frame) (y : Option Series)
    (body : Option Series → Work Unit) (w : Workspace) (look : Memory → β) :
    ended (fitting s X y body w) look = Failure.byKind (alignTarget y X) >>= fun y =>
      ended (body y { w with memory := w.memory.withInput s none })
        fun m => look (m.withInput s (some X.labels)) := by
  unfold fitting
  rw [ended_except_bind]
  congr 1
  funext y
  rw [run_setInput_bind, run_bind]
  rcases body y { w with memory := w.memory.withInput s none } with ⟨_ | _, v⟩ <;> rfl

theorem ended_congr {o : Except Failure α × Workspace} {look look' : Memory → β}
    (h : look o.2.memory = look' o.2.memory) : ended o look = ended o look' := by
  rcases o with ⟨_ | _, v⟩
  · rfl
  · exact congrArg Except.ok h

theorem ended_map (o : Except Failure α × Workspace) (look : Memory → β) (f : β → γ) :
    ended o (fun m => f (look m)) = (ended o look).map f := by
  rcases o with ⟨_ | _, v⟩ <;> rfl

end Work

theorem Memory.extends_withInput_self (m : Memory) (s : Site) (columns : Option (List Label)) :
    Extends [s.id] m (m.withInput s columns) := by
  unfold withInput
  exact .update (List.mem_singleton.2 rfl) (fun _ => by rfl) m

namespace Node

/-- What is seen of a node in a memory. -/
def trained (m : Memory) (n : Node) : Trained :=
  ⟨n.isFitted m, fun Z => Failure.byKind (n.plan.transform m n.site Z).outcome⟩

/-- A node as a trainer, from some workspace on. -/
def train (env : Surroundings) (w : Workspace) (n : Node) : Trainer := fun X y =>
  Work.ended (n.plan.fit env n.site X y w) n.trained

variable {env : Surroundings} {w w' : Workspace} {n : Node} {nodes : List Node} {m m' : Memory}
  {S : List Nat} {X : Frame} {y : Option Series} {i : Nat} {columns : List Label}

theorem trained_same (h : m.Renamed id n.site.ids m') : trained m n = trained m' n := by
  have hfitted : n.isFitted m = n.isFitted m' := Plan.isFitted_same _ h
  unfold trained
  simp only [hfitted, Plan.transform_same _ _ h]

theorem train_same (h : Memory.Mirrors id n.site.ids w.memory w'.memory) :
    train env w n = train env w' n := by
  funext X y
  unfold train
  have hrun := Plan.fit_follows env n.plan X y (List.Subset.refl n.site.ids) w w' h.tracks
  rcases hw : n.plan.fit env n.site X y w with ⟨_ | _, v⟩ <;>
    rcases hw' : n.plan.fit env n.site X y w' with ⟨_ | _, v'⟩ <;> rw [hw, hw'] at hrun
  · exact congrArg (fun e => Except.error (Failure.kind e)) hrun.1
  · exact hrun.elim
  · exact hrun.elim
  · exact congrArg Except.ok (trained_same hrun.2.mirrors.renamed)

theorem map_trained_extend (h : Memory.Extends S m m')
    (hnodes : ∀ i ∈ Site.idsOf (sites nodes), i < m.next)
    (hS : ∀ i ∈ Site.idsOf (sites nodes), i ∉ S) :
    nodes.map (trained m') = nodes.map (trained m) := by
  refine List.map_congr_left fun n hn => (trained_same (h.mirrors ?_ ?_).renamed).symm
  · exact fun i hi => hnodes i (Site.mem_idsOf.2 ⟨_, List.mem_map_of_mem hn, hi⟩)
  · exact fun i hi => hS i (Site.mem_idsOf.2 ⟨_, List.mem_map_of_mem hn, hi⟩)

theorem map_train_extend (h : Memory.Extends S w.memory w'.memory)
    (hnodes : ∀ i ∈ Site.idsOf (sites nodes), i < w.memory.next)
    (hS : ∀ i ∈ Site.idsOf (sites nodes), i ∉ S) :
    nodes.map (train env w') = nodes.map (train env w) := by
  refine List.map_congr_left fun n hn => (train_same (h.mirrors ?_ ?_)).symm
  · exact fun i hi => hnodes i (Site.mem_idsOf.2 ⟨_, List.mem_map_of_mem hn, hi⟩)
  · exact fun i hi => hS i (Site.mem_idsOf.2 ⟨_, List.mem_map_of_mem hn, hi⟩)

/-! Parts that are fitted one after another. -/

/-- What was achieved for the first part lasts while the others are fitted. -/
theorem ended_rest {α : Type} {o : Except Failure α × Workspace}
    (h : m.Holds (n.site.ids ++ Site.idsOf (sites nodes)))
    (ho : Memory.Extends (Site.idsOf (sites nodes)) m o.2.memory) :
    Work.ended o (fun m => (n :: nodes).map (trained m)) =
      (Work.ended o fun m => nodes.map (trained m)).map (trained m n :: ·) := by
  have hfirst : trained o.2.memory n = trained m n :=
    (trained_same (ho.mirrors h.left.taken fun _ => h.disjoint).renamed).symm
  rw [← Work.ended_map]
  refine Work.ended_congr ?_
  rw [List.map_cons, hfirst]

/-- The workspace after one part was fitted, for the parts that follow. -/
theorem rest_after (env : Surroundings)
    (h : w.memory.Holds (n.site.ids ++ Site.idsOf (sites nodes)))
    (hw' : Memory.Extends n.site.ids w.memory w'.memory) :
    w'.memory.Holds (n.site.ids ++ Site.idsOf (sites nodes)) ∧
      nodes.map (train env w') = nodes.map (train env w) :=
  ⟨h.extend hw', map_train_extend hw' h.right.taken fun _ hi hn => h.disjoint hn hi⟩

theorem ended_fitAll (h : w.memory.Holds (Site.idsOf (sites nodes))) :
    Work.ended (Plan.fitAll env (plans nodes) (sites nodes) X y w)
        (fun m => nodes.map (trained m)) =
      Trainer.all (nodes.map (train env w)) X y := by
  induction nodes generalizing w with
  | nil => rfl
  | cons n nodes ih =>
    change w.memory.Holds (n.site.ids ++ Site.idsOf (sites nodes)) at h
    have hfirst := Plan.fit_extends env n.plan X y h.left.taken
    have htrain : train env w n X y = Work.ended (n.plan.fit env n.site X y w) n.trained := rfl
    refine (Work.ended_bind (n.plan.fit env n.site X y) _ w _).trans ?_
    rw [List.map_cons, Trainer.all, htrain]
    rcases hfit : n.plan.fit env n.site X y w with ⟨e | _, v⟩
    · rfl
    · rw [hfit] at hfirst
      obtain ⟨hv, htrains⟩ := rest_after env h hfirst
      have hlast := Plan.fitAll_extends env (plans nodes) X y hv.right.taken
      refine (ended_rest hv hlast).trans ?_
      rw [ih hv.right, htrains]
      rcases Trainer.all (nodes.map (train env w)) X y with e | rs <;> rfl

theorem ended_fitChain (h : w.memory.Holds (Site.idsOf (sites nodes))) :
    Work.ended (Plan.fitChain env (plans nodes) (sites nodes) X y w)
        (fun m => nodes.map (trained m)) =
      Trainer.chain (nodes.map (train env w)) X y := by
  induction nodes generalizing w X with
  | nil => rfl
  | cons n nodes ih =>
    change w.memory.Holds (n.site.ids ++ Site.idsOf (sites nodes)) at h
    have hfirst := Plan.fit_extends env n.plan X y h.left.taken
    have htrain : train env w n X y = Work.ended (n.plan.fit env n.site X y w) n.trained := rfl
    cases nodes with
    | nil =>
      change Work.ended (n.plan.fit env n.site X y w) _ = _
      simp only [List.map_cons, List.map_nil, Trainer.chain, htrain]
      rcases n.plan.fit env n.site X y w with ⟨e | _, v⟩ <;> rfl
    | cons n' nodes =>
      have hchain : Trainer.chain ((n :: n' :: nodes).map (train env w)) X y =
          (train env w n X y >>= fun r => r.answer X >>= fun Z =>
            Trainer.chain ((n' :: nodes).map (train env w)) Z y >>= fun rs => .ok (r :: rs)) := rfl
      refine (Work.ended_bind (n.plan.fit env n.site X y) _ w _).trans ?_
      rw [hchain, htrain]
      rcases hfit : n.plan.fit env n.site X y w with ⟨e | _, v⟩
      · rfl
      · rw [hfit] at hfirst
        dsimp only
        rw [Work.run_memory_bind, Work.ended_logged_bind]
        change ((trained v.memory n).answer X >>= fun Z => _) =
          ((trained v.memory n).answer X >>= fun Z => _)
        congr 1
        funext Z
        -- Only notices were left since the first part was fitted.
        generalize hu : ({ v with notices := v.notices ++ _ } : Workspace) = u
        have hmemory : u.memory = v.memory := by rw [← hu]
        rw [← hmemory] at hfirst ⊢
        obtain ⟨hv, htrains⟩ := rest_after env h hfirst
        have hlast := Plan.fitChain_extends env (plans (n' :: nodes)) Z y hv.right.taken
        refine (ended_rest hv hlast).trans ?_
        rw [ih hv.right, htrains]
        rcases Trainer.chain ((n' :: nodes).map (train env w)) Z y with e | rs <;> rfl

/-! Composites. -/

theorem allFitted_eq_all (m : Memory) (nodes : List Node) :
    Plan.allFitted m (plans nodes) (sites nodes) = (nodes.map (trained m)).all (·.fitted) := by
  induction nodes with
  | nil => rfl
  | cons n nodes ih =>
    have hfitted : (trained m n).fitted = n.plan.isFitted m n.site := rfl
    rw [List.map_cons, List.all_cons, ← ih, hfitted]
    rfl

theorem chain_eq_chained (m : Memory) (nodes : List Node) (Z : Frame) :
    Failure.byKind (Plan.chain m (plans nodes) (sites nodes) Z).outcome =
      Trained.chained (nodes.map (trained m)) Z := by
  induction nodes generalizing Z with
  | nil => rfl
  | cons n nodes ih =>
    refine (Failure.byKind_bind (n.plan.transform m n.site Z) _).trans ?_
    change ((trained m n).answer Z >>= fun U => _) = ((trained m n).answer Z >>= fun U => _)
    congr 1
    funext U
    exact ih U

theorem outputs_eq_answers (m : Memory) (nodes : List Node) (Z : Frame) :
    Failure.byKind (Plan.outputs m (plans nodes) (sites nodes) Z).outcome =
      Trained.answers (nodes.map (trained m)) Z := by
  induction nodes with
  | nil => rfl
  | cons n nodes ih =>
    refine (Failure.byKind_bind (n.plan.transform m n.site Z) _).trans ?_
    change ((trained m n).answer Z >>= fun U => _) = ((trained m n).answer Z >>= fun U => _)
    congr 1
    funext U
    refine (Failure.byKind_bind (Plan.outputs m (plans nodes) (sites nodes) Z) _).trans ?_
    rw [ih]
    rfl

theorem guarded_outcome {s : Site} (hcolumns : m.inputColumns s = some columns) (fitted : Bool)
    (Z : Frame) (body : Unit → Logged Frame) :
    Failure.byKind (m.guarded s fitted Z body).outcome =
      ((⟨fitted, fun _ => Failure.byKind (body ()).outcome⟩ : Trained).guarded columns).answer
        Z := by
  unfold Memory.guarded Memory.lacking Trained.guarded
  rw [hcolumns, Option.getD_some]
  cases fitted with
  | false => rfl
  | true =>
    simp only [Bool.not_true, Bool.false_eq_true, if_false]
    rcases hlacking : columns.filter fun c => !Z.has c with _ | ⟨c, cs⟩
    · have hall : columns.all Z.has = true := by
        simpa [List.filter_eq_nil_iff] using hlacking
      rw [if_pos hall]
    · have hsome : ¬columns.all Z.has = true := by
        intro hall
        have hc : c ∈ columns.filter fun c => !Z.has c := by
          rw [hlacking]
          exact List.mem_cons_self
        obtain ⟨hmem, hnot⟩ := List.mem_filter.1 hc
        rw [List.all_eq_true.1 hall c hmem] at hnot
        exact Bool.false_ne_true hnot
      rw [if_neg hsome]
      rfl

theorem guarded_of_ok {α : Type} {s : Site} {fitted : Bool} {Z : Frame} {U : α}
    {body : Unit → Logged α} (h : (m.guarded s fitted Z body).outcome = .ok U) :
    fitted = true ∧ m.lacking s Z = [] ∧ (body ()).outcome = .ok U := by
  unfold Memory.guarded at h
  cases fitted with
  | false => cases h
  | true =>
    simp only [Bool.not_true, Bool.false_eq_true, if_false] at h
    split at h
    · next hlacking => exact ⟨rfl, hlacking, h⟩
    · cases h

/-- The slot of a node right after its fit. -/
theorem inputColumns_withInput {s : Site} (hs : s.id < m.next) :
    (m.withInput s (some columns)).inputColumns s = some columns := by
  unfold Memory.inputColumns
  rw [Memory.slot_withInput_self hs]

theorem isFitted_parts {s : Site} (hinput : m.hasInput s = true) (hparts : s.parts = sites nodes) :
    (m.hasInput s && Plan.allFitted m (plans nodes) s.parts) =
      (nodes.map (trained m)).all (·.fitted) := by
  rw [hinput, hparts, allFitted_eq_all, Bool.true_and]

theorem hasInput_of_eq {s : Site} (h : m.inputColumns s = some columns) :
    m.hasInput s = true := by
  unfold Memory.hasInput
  rw [h]
  rfl

theorem trained_sequential {s : Site} (hparts : s.parts = sites nodes)
    (hcolumns : m.inputColumns s = some columns) :
    trained m ⟨.sequential (plans nodes), s⟩ =
      (Trained.sequence (nodes.map (trained m))).guarded columns := by
  have hfitted : Plan.isFitted m (.sequential (plans nodes)) s =
      (nodes.map (trained m)).all (·.fitted) := by
    rw [Plan.isFitted, isFitted_parts (hasInput_of_eq hcolumns) hparts]
  unfold trained isFitted
  simp only [hfitted, Plan.transform, guarded_outcome hcolumns, hparts, chain_eq_chained]
  rfl

theorem joined_eq (m : Memory) (s : Site) (names : List Label) (outputs : List Frame)
    (Z : Frame) :
    Failure.byKind (m.concatenate s names outputs Z).outcome =
      Trained.joined names outputs Z := by
  unfold Memory.concatenate Trained.joined
  dsimp only
  split
  · rfl
  · split <;> rfl

theorem trained_parallel {s : Site} (hparts : s.parts = sites nodes)
    (hcolumns : m.inputColumns s = some columns) :
    trained m ⟨.parallel (plans nodes), s⟩ =
      (Trained.parallel (m.labelsOf (sites nodes)) (nodes.map (trained m))).guarded columns := by
  have hfitted : Plan.isFitted m (.parallel (plans nodes)) s =
      (nodes.map (trained m)).all (·.fitted) := by
    rw [Plan.isFitted, isFitted_parts (hasInput_of_eq hcolumns) hparts]
  unfold trained isFitted
  simp only [hfitted, Plan.transform, guarded_outcome hcolumns, hparts, Failure.byKind_bind,
    outputs_eq_answers, joined_eq]
  rfl

/-- A node that does nothing but fit its parts is trained like them. -/
theorem train_parts {s : Site} {plan : Plan} (body : Option Series → Work Unit)
    (trainers : Option Series → Except String (List Trained)) (combined : List Trained → Trained)
    (hs : w.memory.Holds s.ids) (hparts : s.parts = sites nodes)
    (hfit : plan.fit env s X y = Work.fitting s X y body)
    (hbody : ∀ y v, Memory.Extends [s.id] w.memory v.memory →
      Memory.Extends (Site.idsOf (sites nodes)) v.memory (body y v).2.memory ∧
        Work.ended (body y v) (fun m => nodes.map (trained m)) = trainers y)
    (hend : ∀ m, Memory.Extends s.ids w.memory m → m.inputColumns s = some X.labels →
      trained m ⟨plan, s⟩ = (combined (nodes.map (trained m))).guarded X.labels) :
    train env w ⟨plan, s⟩ X y =
      Trainer.fitting (fun _ y => do return combined (← trainers y)) X y := by
  have hids : w.memory.Holds (Site.idsOf (sites nodes)) := hparts ▸ hs.parts
  have hself : ∀ i ∈ Site.idsOf (sites nodes), i ∉ [s.id] := by
    intro i hi heq
    rw [List.mem_singleton.1 heq, ← hparts] at hi
    exact hs.id_notMem_parts hi
  unfold train
  simp only [hfit, Work.ended_fitting, Trainer.fitting]
  congr 1
  funext y
  generalize hv : ({ w with memory := w.memory.withInput s none } : Workspace) = v
  have hstart : Memory.Extends [s.id] w.memory v.memory := by
    rw [← hv]
    exact w.memory.extends_withInput_self s none
  obtain ⟨hextend, htrainers⟩ := hbody y v hstart
  have hafter : Memory.Extends s.ids w.memory (body y v).2.memory := by
    refine (hstart.mono fun i hi => ?_).trans hextend fun i hi => .inl ?_
    · rw [List.mem_singleton.1 hi]
      exact s.id_mem_ids
    · rw [← hparts] at hi
      exact Site.mem_ids_of_mem_idsOf_parts hi
  generalize hlook : (fun m : Memory => trained (m.withInput s (some X.labels)) ⟨plan, s⟩) = look
  have hcongr : Work.ended (body y v) look = Work.ended (body y v) fun m =>
      (combined (nodes.map (trained m))).guarded X.labels := by
    refine Work.ended_congr ?_
    rw [← hlook]
    generalize (body y v).2.memory = m at hafter
    have htaken := hs.extend hafter
    have hinput := m.extends_withInput_self s (some X.labels)
    have hparts' : nodes.map (trained (m.withInput s (some X.labels))) = nodes.map (trained m) :=
      map_trained_extend hinput (hids.extend hafter).taken hself
    dsimp only
    rw [hend _ (hafter.trans (m.extends_withInput s (some X.labels)) fun _ hi => .inl hi)
      (inputColumns_withInput htaken.id_taken), hparts']
  rw [hcongr, Work.ended_map (body y v) (fun m => nodes.map (trained m))
    fun rs => (combined rs).guarded X.labels, htrainers]
  rcases trainers y with e | rs <;> rfl

theorem train_sequential {s : Site} (hs : w.memory.Holds s.ids) (hparts : s.parts = sites nodes) :
    train env w ⟨.sequential (plans nodes), s⟩ =
      Trainer.sequential (nodes.map (train env w)) := by
  funext X y
  have hids : w.memory.Holds (Site.idsOf (sites nodes)) := hparts ▸ hs.parts
  have hself : ∀ i ∈ Site.idsOf (sites nodes), i ∉ [s.id] := by
    intro i hi heq
    rw [List.mem_singleton.1 heq, ← hparts] at hi
    exact hs.id_notMem_parts hi
  refine train_parts (fun y => Plan.fitChain env (plans nodes) s.parts X y)
    (Trainer.chain (nodes.map (train env w)) X) Trained.sequence hs hparts
    (by rw [Plan.fit]) (fun y v hv => ?_) fun m _ hm => trained_sequential hparts hm
  rw [hparts]
  have hv' := hids.extend hv
  refine ⟨Plan.fitChain_extends env (plans nodes) X y hv'.taken, ?_⟩
  rw [ended_fitChain hv', map_train_extend hv hids.taken hself]

theorem train_parallel {s : Site} (hs : w.memory.Holds s.ids) (hparts : s.parts = sites nodes) :
    train env w ⟨.parallel (plans nodes), s⟩ =
      Trainer.parallel (w.memory.labelsOf (sites nodes)) (nodes.map (train env w)) := by
  funext X y
  have hids : w.memory.Holds (Site.idsOf (sites nodes)) := hparts ▸ hs.parts
  have hself : ∀ i ∈ Site.idsOf (sites nodes), i ∉ [s.id] := by
    intro i hi heq
    rw [List.mem_singleton.1 heq, ← hparts] at hi
    exact hs.id_notMem_parts hi
  refine train_parts (fun y => Plan.fitAll env (plans nodes) s.parts X y)
    (Trainer.all (nodes.map (train env w)) X)
    (Trained.parallel (w.memory.labelsOf (sites nodes))) hs hparts
    (by rw [Plan.fit]) (fun y v hv => ?_) fun m he hm => ?_
  · rw [hparts]
    have hv' := hids.extend hv
    refine ⟨Plan.fitAll_extends env (plans nodes) X y hv'.taken, ?_⟩
    rw [ended_fitAll hv', map_train_extend hv hids.taken hself]
  · have hnames : m.labelsOf (sites nodes) = w.memory.labelsOf (sites nodes) := by
      refine List.map_congr_left fun r hr => he.name_eq r.id (hids.taken _ ?_)
      exact Site.mem_idsOf.2 ⟨r, hr, r.id_mem_ids⟩
    rw [trained_parallel hparts hm, hnames]

/-! Any node aligns its target before it is fitted, and remembers its columns afterwards. -/

theorem exists_fitting (env : Surroundings) (p : Plan) (s : Site) (X : Frame) :
    ∃ body, ∀ y, p.fit env s X y = Work.fitting s X y body := by
  cases p with
  | best ps policy => exact ⟨_, fun y => Plan.fit_best policy s⟩
  | bagging t settings => exact ⟨_, fun y => Plan.fit_bagging settings s⟩
  | _ => exact ⟨_, fun y => by rw [Plan.fit]⟩

theorem exists_guarded (m : Memory) (p : Plan) (s : Site) :
    ∃ body : Frame → Unit → Logged Frame,
      ∀ Z, p.transform m s Z = m.guarded s (p.isFitted m s) Z (body Z) := by
  cases p <;> exact ⟨_, fun Z => by rw [Plan.transform]⟩

theorem transform_frame (n : Node) (m : Memory) (Z : Frame) :
    n.transform m (.frame Z) = n.plan.transform m n.site Z := by
  obtain ⟨body, hbody⟩ := exists_guarded m n.plan n.site
  unfold transform
  cases hfitted : n.isFitted m with
  | true => rfl
  | false =>
    have hplan : n.plan.isFitted m n.site = false := hfitted
    rw [hbody, hplan]
    rfl

theorem fit_eq {X y : Data} {F : Frame} {t : Option Series} (hX : X.toFrame = .ok F)
    (hy : y.toSeries = .ok t) (env : Surroundings) (n : Node) :
    n.fit env X y = n.plan.fit env n.site F t := by
  unfold fit
  rw [hX, hy]
  rfl

theorem trained_guarded (h : m.inputColumns n.site = some columns) :
    (trained m n).guarded columns = trained m n := by
  obtain ⟨body, hbody⟩ := exists_guarded m n.plan n.site
  have hanswer : trained m n =
      Trained.guarded columns ⟨n.isFitted m, fun Z => Failure.byKind (body Z ()).outcome⟩ := by
    unfold trained
    simp only [hbody, guarded_outcome h]
    rfl
  rw [hanswer, Trained.guarded_guarded]

/-- A node sees its target in the aligned form only. -/
theorem fit_target {y' : Option Series} (h : alignTarget y X = alignTarget y' X) (p : Plan)
    (s : Site) : p.fit env s X y = p.fit env s X y' := by
  obtain ⟨body, hbody⟩ := exists_fitting env p s X
  rw [hbody, hbody]
  unfold Work.fitting
  rw [h]

theorem fit_aligned {y' : Option Series} (hy : alignTarget y X = .ok y') :
    n.plan.fit env n.site X y' = n.plan.fit env n.site X y :=
  fit_target (alignTarget_alignTarget hy X) n.plan n.site

theorem fit_refused {e : Failure} (hy : alignTarget y X = .error e) :
    n.plan.fit env n.site X y w = (.error e, w) := by
  obtain ⟨body, hbody⟩ := exists_fitting env n.plan n.site X
  rw [hbody]
  unfold Work.fitting
  rw [hy]
  rfl

theorem inputColumns_fit {v : Workspace} (hn : ∀ i ∈ n.site.ids, i < w.memory.next)
    (hfit : n.plan.fit env n.site X y w = (.ok (), v)) :
    v.memory.inputColumns n.site = some X.labels := by
  have hextend := Plan.fit_extends env n.plan X y hn
  rw [hfit] at hextend
  obtain ⟨body, hbody⟩ := exists_fitting env n.plan n.site X
  rw [hbody] at hfit
  unfold Work.fitting at hfit
  cases hy : alignTarget y X with
  | error e =>
    rw [hy] at hfit
    cases congrArg Prod.fst hfit
  | ok y' =>
    rw [hy, Work.run_ok_bind, Work.run_setInput_bind, Work.run_bind] at hfit
    split at hfit
    · next u hu =>
      rw [Work.run_setInput] at hfit
      obtain rfl : _ = v := congrArg Prod.snd hfit
      refine inputColumns_withInput ?_
      have hnext : (u.memory.withInput n.site (some X.labels)).next = u.memory.next :=
        Memory.next_update _ _ _
      have hle := hextend.next_le
      rw [← hnext]
      exact Nat.lt_of_lt_of_le (hn _ n.site.id_mem_ids) hle
    · cases congrArg Prod.fst hfit

theorem regular_train (hn : ∀ i ∈ n.site.ids, i < w.memory.next) :
    (train env w n).Regular := by
  funext X y
  cases hy : alignTarget y X with
  | error e =>
    rw [Trainer.fitting_of_refused hy]
    unfold train
    rw [fit_refused hy]
    rfl
  | ok y' =>
    rw [Trainer.fitting_of_aligned hy]
    unfold train
    rw [fit_aligned hy]
    rcases hfit : n.plan.fit env n.site X y w with ⟨e | _, v⟩
    · rfl
    · exact congrArg Except.ok (trained_guarded (inputColumns_fit hn hfit))

end Node
end ColumnFlow
