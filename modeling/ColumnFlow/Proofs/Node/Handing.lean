import ColumnFlow.Proofs.Frame.Picking
import ColumnFlow.Proofs.Node.Projecting
import ColumnFlow.Proofs.Transform.OutputLabels

/-!
# What the nodes of a tree are given

While a tree transforms a frame its nodes are given frames: the frame itself, or what other nodes
made of it. Labels flow through a tree without regard to what stands in the cells. A node carries
labels if it answers every frame with the first labels under the second ones; it recognizes labels
if for every frame with these labels all nodes in it remember the very columns they are given, which
have texts for labels.
-/
namespace ColumnFlow

/-- A learner whose models have a column of probabilities for every class, and no others, whatever
they are shown. -/
def Learner.NamesClasses (l : Learner) : Prop :=
  ∀ X y model f, (l.calculate X y).outcome = .ok (some model) → model.probabilities = some f →
    ∃ classes : List Label, ∀ F P : Frame, (f F).outcome = .ok P → P.labels = classes

def Plan.isEnsemble : Plan → Bool
  | .vote _ | .stack .. | .best .. | .bagging .. => true
  | _ => false

namespace Node

/-- While a tree transforms a frame, a node of it is given another. -/
inductive Given (m : Memory) : Node → Frame → Node → Frame → Prop
  | self {n : Node} {F : Frame} : Given m n F n F
  | passed {n q r : Node} {F A B : Frame} :
    Passes m F F n q A A → Given m q A r B → Given m n F r B
  | asked {n q r : Node} {F A B : Frame} :
    Asks m F F n q A A → Given m q A r B → Given m n F r B

/-- Whatever stands in a frame with the labels `L`, an answer to it has the labels `M`. -/
def Carries (m : Memory) (n : Node) (L M : List Label) : Prop :=
  ∀ F G : Frame, F.labels = L → n.reply m F = .ok G → G.labels = M

/-- Whatever stands in a frame with the labels `L`, every node that is given a frame then remembers
the labels of that frame, which are texts. -/
def Recognizes (m : Memory) (n : Node) (L : List Label) : Prop :=
  ∀ F r B, F.labels = L → Given m n F r B →
    m.inputColumns r.site = some B.labels ∧ ∀ l ∈ B.labels, l.isText = true

variable {m m' : Memory} {n q r : Node} {nodes before after : List Node} {s : Site} {t : Plan}
  {ps : List Plan} {F F' G A A' B : Frame} {L M : List Label} {settings : StackSettings}

theorem Passes.mem_parts (h : Passes m F F' n q A A') : q ∈ n.parts := by
  cases h with
  | branch hq => exact hq
  | turn hparts =>
    change q ∈ zipParts _ _
    rw [hparts]
    exact List.mem_append_right _ List.mem_cons_self

theorem mem_parts_of_mem_members (hq : q ∈ n.members m) : q ∈ n.parts := by
  obtain ⟨p, s⟩ := n
  cases p with
  | best ps policy => exact List.mem_of_getElem? (Option.mem_toList.1 hq)
  | vote ps | bagging t settings => exact hq
  | stack t ps settings => exact List.mem_cons_of_mem _ hq
  | _ => cases hq

theorem Asks.mem_parts (h : Asks m F F' n q A A') : q ∈ n.parts := by
  cases h with
  | member hq => exact mem_parts_of_mem_members hq
  | stacker => exact List.mem_cons_self

theorem recognizes_of (hself : m.inputColumns n.site = some L) (htexts : ∀ l ∈ L, l.isText = true)
    (hpasses : ∀ F q A, F.labels = L → Passes m F F n q A A → q.Recognizes m A.labels)
    (hasks : ∀ F q A, F.labels = L → Asks m F F n q A A → q.Recognizes m A.labels) :
    n.Recognizes m L := by
  intro F r B hF hgiven
  cases hgiven with
  | self => exact hF ▸ ⟨hself, htexts⟩
  | passed hpass hgiven => exact hpasses F _ _ hF hpass _ r B rfl hgiven
  | asked hask hgiven => exact hasks F _ _ hF hask _ r B rfl hgiven

theorem recognizes_leaf (hself : m.inputColumns n.site = some L)
    (htexts : ∀ l ∈ L, l.isText = true) (hleaf : n.parts = []) : n.Recognizes m L :=
  recognizes_of hself htexts
    (fun _ _ _ _ hpasses => absurd hpasses.mem_parts (hleaf ▸ List.not_mem_nil))
    fun _ _ _ _ hasks => absurd hasks.mem_parts (hleaf ▸ List.not_mem_nil)

/-! A tree goes by its own slots, so nothing of this changes while they stay as they are. -/

section Same

theorem reply_same (h : m.Renamed id n.site.ids m') : n.reply m = n.reply m' := by
  funext F
  exact congrArg Logged.outcome (Plan.transform_same n.plan F h)

theorem inputColumns_same (h : m.Renamed id n.site.ids m') :
    m.inputColumns n.site = m'.inputColumns n.site :=
  congrArg Slot.inputColumns (h _ n.site.id_mem_ids)

theorem members_same (h : m.Renamed id n.site.ids m') : n.members m = n.members m' := by
  have hslot : m.slot n.site.id = m'.slot n.site.id := h _ n.site.id_mem_ids
  unfold members
  rw [Memory.winner_eq hslot]

theorem foldlM_same (h : ∀ q ∈ nodes, m.Renamed id q.site.ids m') (F : Frame) :
    nodes.foldlM (fun A q => q.reply m A) F = nodes.foldlM (fun A q => q.reply m' A) F := by
  induction nodes generalizing F with
  | nil => rfl
  | cons q nodes ih =>
    rw [List.forall_mem_cons] at h
    simp only [List.foldlM_cons, reply_same h.1, ih h.2]

theorem stacked_same (h : m.Renamed id s.ids m') :
    stacked m ps settings s F = stacked m' ps settings s F := by
  have hslot : m.slot s.id = m'.slot s.id := h _ s.id_mem_ids
  have hnames := h.rest.labelsOf_eq
  have hmembers :=
    Plan.labelsOfAll_rename (fun p (_ : p ∈ ps) => Plan.unnamed id m m' p) h.rest F
  rw [Site.map_rename_eq_self (f := id) fun _ => rfl] at hnames hmembers
  unfold stacked
  rw [← Plan.labelsOfAll_outcome, hmembers, Plan.labelsOfAll_outcome, hnames,
    Stacking.stored_eq (congrArg Slot.learned hslot)]

theorem Passes.same (h : m.Renamed id n.site.ids m') (hpasses : Passes m F F' n q A A') :
    Passes m' F F' n q A A' := by
  cases hpasses with
  | branch hq => exact .branch hq
  | @turn ps s before after q A A' hparts hA hA' =>
    have hbefore : ∀ p ∈ before, m.Renamed id p.site.ids m' := fun p hp =>
      h.parts.mono fun _ => ids_of_mem_zipParts (hparts ▸ List.mem_append_left _ hp)
    rw [foldlM_same hbefore] at hA hA'
    exact .turn hparts hA hA'

theorem Asks.same (h : m.Renamed id n.site.ids m') (hasks : Asks m F F' n q A A') :
    Asks m' F F' n q A A' := by
  cases hasks with
  | member hq => exact .member (members_same h ▸ hq)
  | stacker hA hA' => exact .stacker (stacked_same h ▸ hA) (stacked_same h ▸ hA')

theorem Given.same (hgiven : Given m n F r B) (h : m.Renamed id n.site.ids m') :
    Given m' n F r B ∧ m.Renamed id r.site.ids m' := by
  induction hgiven with
  | self => exact ⟨.self, h⟩
  | passed hpasses _ ih =>
    obtain ⟨hrest, hr⟩ := ih (h.mono fun _ => ids_of_mem_parts hpasses.mem_parts)
    exact ⟨.passed (hpasses.same h) hrest, hr⟩
  | asked hasks _ ih =>
    obtain ⟨hrest, hr⟩ := ih (h.mono fun _ => ids_of_mem_parts hasks.mem_parts)
    exact ⟨.asked (hasks.same h) hrest, hr⟩

theorem Carries.same (hn : n.Carries m L M) (h : m.Renamed id n.site.ids m') :
    n.Carries m' L M := by
  unfold Carries
  rw [← reply_same h]
  exact hn

theorem Recognizes.same (hn : n.Recognizes m L) (h : m.Renamed id n.site.ids m') :
    n.Recognizes m' L := by
  intro F r B hF hgiven
  obtain ⟨hgiven, hr⟩ := hgiven.same fun i hi => (h i hi).symm
  rw [inputColumns_same hr]
  exact hn F r B hF hgiven

end Same

/-! Leaves. -/

theorem carries_transformer {t : Transformer}
    (h : ∀ f, (m.slot s.id).learned = .fitted f → f.Carries L M) :
    Carries m ⟨.transformer t, s⟩ L M := by
  intro F G hF hG
  obtain ⟨-, f, -, hlearned, -, hrun⟩ := exists_knowledge hG
  exact h f hlearned F G hF hrun

theorem exists_carries_learner {l : Learner} (hname : (m.label s).isText = true)
    (hclasses : ∀ f, m.probabilitiesOf l s = some f →
      ∃ classes : List Label, ∀ F P : Frame, (f F).outcome = .ok P → P.labels = classes)
    (L : List Label) :
    ∃ M, (∀ l ∈ M, l.isText = true) ∧ Carries m ⟨.learner l, s⟩ L M := by
  have hanswer : ∀ {F G}, reply m ⟨.learner l, s⟩ F = .ok G →
      (m.answer l s F).outcome = .ok G := by
    intro F G hG
    simp only [reply, Plan.transform] at hG
    exact (guarded_of_ok hG).2.2
  cases hproba : m.probabilitiesOf l s with
  | none =>
    refine ⟨[m.label s], fun l hl => List.mem_singleton.1 hl ▸ hname, fun F G _ hG => ?_⟩
    rcases Memory.answer_cases (hanswer hG) with ⟨-, S, hS, rfl⟩ | ⟨f, X, P, hf, -⟩
    · have hlabel := Memory.label_predictions hS
      rw [Memory.labels_labelFrame (hlabel ▸ hname), hlabel]
    · rw [hproba] at hf
      cases hf
  | some f =>
    obtain ⟨classes, hclasses⟩ := hclasses f hproba
    refine ⟨classes.map (m.classColumn s), fun l hl => ?_, fun F G _ hG => ?_⟩
    · obtain ⟨c, -, rfl⟩ := List.mem_map.1 hl
      rfl
    rcases Memory.answer_cases (hanswer hG) with ⟨hnone, -⟩ | ⟨f', X, P, hf, hP, rfl⟩
    · rw [hproba] at hnone
      cases hnone
    · obtain rfl : f = f' := Option.some.inj (hproba.symm.trans hf)
      exact (P.labels_relabel_map fun _ => rfl).trans (congrArg _ (hclasses X P hP))

/-! Composites and ensembles. -/

/-- A node that recognizes labels and carries them on as texts. -/
structure Settled (m : Memory) (n : Node) (L M : List Label) : Prop where
  recognizes : n.Recognizes m L
  carries : n.Carries m L M
  texts : ∀ l ∈ M, l.isText = true

theorem Settled.same (h : Settled m n L M) (hm : m.Renamed id n.site.ids m') :
    Settled m' n L M :=
  ⟨h.recognizes.same hm, h.carries.same hm, h.texts⟩

/-- Nodes each of which is settled on what the one before it carries on. -/
inductive Linked (m : Memory) : List Node → List Label → Prop
  | nil {L : List Label} : Linked m [] L
  | cons {q : Node} {nodes : List Node} {L M : List Label} :
    Settled m q L M → Linked m nodes M → Linked m (q :: nodes) L

theorem Linked.recognizes (h : Linked m nodes L) (hnodes : nodes = before ++ q :: after)
    (hF : F.labels = L) (hA : before.foldlM (fun A p => p.reply m A) F = .ok A) :
    q.Recognizes m A.labels := by
  induction h generalizing before F with
  | nil => simp at hnodes
  | @cons p nodes L M hfirst _ ih =>
    cases before with
    | nil =>
      obtain rfl := (List.cons.inj hnodes).1
      obtain rfl := Except.ok.inj hA
      exact hF ▸ hfirst.recognizes
    | cons b before =>
      have hrest := (List.cons.inj hnodes).2
      obtain rfl := (List.cons.inj hnodes).1
      rw [List.foldlM_cons] at hA
      obtain ⟨C, hC, hA⟩ := Except.exists_of_bind hA
      exact ih hrest (hfirst.carries F C hF hC) hA

theorem Linked.exists_carries (h : Linked m nodes L) (htexts : ∀ l ∈ L, l.isText = true) :
    ∃ M, (∀ l ∈ M, l.isText = true) ∧ ∀ F G : Frame, F.labels = L →
      nodes.foldlM (fun A p => p.reply m A) F = .ok G → G.labels = M := by
  induction h with
  | @nil L =>
    refine ⟨L, htexts, fun F G hF hG => ?_⟩
    rwa [← Except.ok.inj hG]
  | cons hfirst _ ih =>
    obtain ⟨M, hM, hlast⟩ := ih hfirst.texts
    refine ⟨M, hM, fun F G hF hG => ?_⟩
    rw [List.foldlM_cons] at hG
    obtain ⟨C, hC, hG⟩ := Except.exists_of_bind hG
    exact hlast C G (hfirst.carries F C hF hC) hG

theorem settled_sequential (hself : m.inputColumns s = some L)
    (hparts : Linked m (zipParts ps s.parts) L) (htexts : ∀ l ∈ L, l.isText = true) :
    ∃ M, Settled m ⟨.sequential ps, s⟩ L M := by
  obtain ⟨M, hM, hcarries⟩ := hparts.exists_carries htexts
  refine ⟨M, recognizes_of hself htexts (fun F q A hF hpasses => ?_) (fun F q A hF hasks => ?_),
    fun F G hF hG => ?_, hM⟩
  · cases hpasses with
    | turn hnodes hA _ => exact hparts.recognizes hnodes hF hA
  · exact absurd hasks (not_asks rfl fun _ _ _ h => nomatch h)
  · simp only [reply, Plan.transform] at hG
    obtain ⟨-, -, hrun⟩ := guarded_of_ok hG
    rw [Plan.chain_outcome] at hrun
    exact hcarries F G hF hrun

theorem settled_parallel (hself : m.inputColumns s = some L) (htexts : ∀ l ∈ L, l.isText = true)
    (hparts : ∀ q ∈ zipParts ps s.parts, ∃ M, Settled m q L M) :
    ∃ M, Settled m ⟨.parallel ps, s⟩ L M := by
  choose! carried hcarried using hparts
  have hcarriedTexts : ∀ l ∈ (zipParts ps s.parts).flatMap carried, l.isText = true := by
    intro l hl
    obtain ⟨q, hq, hl⟩ := List.mem_flatMap.1 hl
    exact (hcarried q hq).texts l hl
  refine ⟨Labels.makeUnique ((zipParts ps s.parts).flatMap carried),
    recognizes_of hself htexts (fun F q A hF hpasses => ?_) (fun F q A hF hasks => ?_),
    fun F G hF hG => ?_, Labels.isText_makeUnique hcarriedTexts⟩
  · cases hpasses with
    | branch hq => exact hF ▸ (hcarried q hq).recognizes
  · exact absurd hasks (not_asks rfl fun _ _ _ h => nomatch h)
  · simp only [reply, Plan.transform] at hG
    obtain ⟨-, -, hrun⟩ := guarded_of_ok hG
    obtain ⟨outputs, houtputs, hrun⟩ := Logged.exists_of_bind hrun
    rw [Plan.outputs_outcome] at houtputs
    obtain ⟨-, rfl⟩ := Memory.concatenate_ok hrun
    have hlabels : (Frame.columnsOf outputs).map (·.label) =
        (zipParts ps s.parts).flatMap carried := by
      have hall := mapM_ok_map (g := fun q => .ok (carried q)) houtputs fun q hq C hC =>
        congrArg Except.ok ((hcarried q hq).carries F C hF hC).symm
      rw [mapM_ok fun q _ => rfl] at hall
      unfold Frame.columnsOf
      rw [List.map_flatMap, List.flatMap_def, List.flatMap_def, Except.ok.inj hall]
      rfl
    rw [Frame.labels_sideBySide (hlabels ▸ hcarriedTexts), hlabels]

theorem labels_output (s : Site) (V : Series) (F : Frame) :
    (m.output s V F).labels = [m.label s] :=
  congrArg (fun l => [l]) (Series.label_dissolve _)

/-- An ensemble answers with a single column, which has its name. -/
theorem carries_ensemble {p : Plan} (hp : p.isEnsemble = true) :
    Carries m ⟨p, s⟩ L [m.label s] := by
  intro F G _ hG
  suffices h : ∃ V, G = m.output s V F by
    obtain ⟨V, rfl⟩ := h
    exact labels_output s V F
  cases p <;> cases hp
  all_goals
    simp only [reply, Plan.transform] at hG
    obtain ⟨-, -, hrun⟩ := guarded_of_ok hG
    obtain ⟨_, -, hrun⟩ := Logged.exists_of_bind hrun
  case vote ps =>
    obtain ⟨V, -, hrun⟩ := Logged.exists_of_bind hrun
    exact ⟨V, (Except.ok.inj hrun).symm⟩
  case stack t ps settings =>
    obtain ⟨A, -, hrun⟩ := Logged.exists_of_bind hrun
    obtain ⟨V, -, hrun⟩ := Logged.exists_of_bind hrun
    exact ⟨V, (Except.ok.inj hrun).symm⟩
  case best ps policy => exact ⟨_, (Except.ok.inj hrun).symm⟩
  case bagging t settings =>
    split at hrun
    · obtain ⟨V, -, hrun⟩ := Logged.exists_of_bind hrun
      exact ⟨V, (Except.ok.inj hrun).symm⟩
    · obtain ⟨V, -, hrun⟩ := Logged.exists_of_bind hrun
      exact ⟨V, (Except.ok.inj hrun).symm⟩

/-- An ensemble is settled when those that it asks recognize what they are shown. -/
theorem settled_ensemble {p : Plan} (hp : p.isEnsemble = true) (hself : m.inputColumns s = some L)
    (htexts : ∀ l ∈ L, l.isText = true) (hname : (m.label s).isText = true)
    (hasks : ∀ F q A, F.labels = L → Asks m F F ⟨p, s⟩ q A A → q.Recognizes m A.labels) :
    Settled m ⟨p, s⟩ L [m.label s] := by
  refine ⟨recognizes_of hself htexts (fun F q A hF hpasses => ?_) hasks, carries_ensemble hp,
    fun l hl => List.mem_singleton.1 hl ▸ hname⟩
  cases hpasses <;> cases hp

/-! Stacks. -/

/-- The labels of what the stacker of a stack is shown of a frame with the labels `L`. -/
def stackedLabels (m : Memory) (ps : List Plan) (settings : StackSettings) (s : Site)
    (L : List Label) : List Label :=
  let predictions :=
    (Labels.unified (Labels.makeUnique (m.labelsOf s.rest))).take (zipParts ps s.rest).length
  if settings.keepOriginal.isTrue then
    L ++ predictions.map fun l => .text ("stack_" ++ l.plain)
  else predictions

theorem labels_besides (names : List Label) (members : List Series) (F : Frame) :
    (Memory.besides names members F).labels =
      (Labels.unified (Labels.makeUnique names)).take members.length := by
  unfold Memory.besides Frame.relabel Frame.labels
  generalize Labels.unified (Labels.makeUnique names) = ls
  dsimp only
  induction members generalizing ls with
  | nil => rfl
  | cons S members ih =>
    cases ls with
    | nil => rfl
    | cons l ls => exact congrArg (l :: ·) (ih ls)

theorem labels_features {codes : List (Scalar × Nat)} {keep : Bool} {P : Frame}
    (h : Stacking.features codes keep P F = .ok A) :
    A.labels = if keep then F.labels ++ P.labels.map fun l => .text ("stack_" ++ l.plain)
      else P.labels := by
  unfold Stacking.features at h
  obtain ⟨cs, hcs, h⟩ := Except.exists_of_bind h
  have hlabels := Frame.labels_of_mapM (fun c d => Stacking.label_coded) hcs
  cases keep with
  | false =>
    obtain rfl := Except.ok.inj h
    exact hlabels
  | true =>
    obtain rfl := Except.ok.inj h
    rw [Frame.labels_beside, Frame.labels_relabel_map _ fun _ => rfl, hlabels]
    rfl

theorem labels_stacked (h : stacked m ps settings s F = .ok A) :
    A.labels = stackedLabels m ps settings s F.labels := by
  unfold stacked at h
  obtain ⟨members, hmembers, h⟩ := Except.exists_of_bind h
  rw [labels_features h, labels_besides, ← (forall₂_of_mapM hmembers).length_eq]
  rfl

theorem texts_stackedLabels (hnames : ∀ l ∈ m.labelsOf s.rest, l.isText = true)
    (htexts : ∀ l ∈ L, l.isText = true) :
    ∀ l ∈ stackedLabels m ps settings s L, l.isText = true := by
  have hunique := Labels.isText_makeUnique hnames
  unfold stackedLabels
  dsimp only
  rw [Labels.unified_of_texts hunique]
  split
  · intro l hl
    rcases List.mem_append.1 hl with hl | hl
    · exact htexts l hl
    · obtain ⟨c, -, rfl⟩ := List.mem_map.1 hl
      rfl
  · exact fun l hl => hunique l (List.mem_of_mem_take hl)

theorem stackedLabels_eq (h : m.labelsOf s.rest = m'.labelsOf s.rest) (L : List Label) :
    stackedLabels m ps settings s L = stackedLabels m' ps settings s L := by
  unfold stackedLabels
  rw [h]

theorem settled_stack (hself : m.inputColumns s = some L) (htexts : ∀ l ∈ L, l.isText = true)
    (hname : (m.label s).isText = true)
    (hmembers : ∀ q ∈ zipParts ps s.rest, q.Recognizes m L)
    (hstacker : Recognizes m ⟨t, s.first⟩ (stackedLabels m ps settings s L)) :
    Settled m ⟨.stack t ps settings, s⟩ L [m.label s] := by
  refine settled_ensemble rfl hself htexts hname fun F q A hF hasks => ?_
  cases hasks with
  | member hq => exact hF ▸ hmembers q hq
  | stacker hA _ =>
    rw [labels_stacked hA, hF]
    exact hstacker

end Node
end ColumnFlow
