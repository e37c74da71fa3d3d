import ColumnFlow.Node.Transform
import ColumnFlow.Proofs.Node.Alike
import Mathlib.Data.List.Forall2

/-!
# Trees that agree

What an answer depends on. Two trees agree when they hold the same in every slot that is read to
transform a frame: of a choice only the chosen part is, of a bagging ensemble only the members, and
a composite keeps nothing but its name and its columns. Trees that agree answer alike.
-/
namespace ColumnFlow

namespace Memory

/-- Two nodes with one name that were fitted with the same columns, or are both not fitted. -/
def SameHead (m m' : Memory) (s s' : Site) : Prop :=
  m.label s = m'.label s' ∧ m.inputColumns s = m'.inputColumns s'

variable {m m' : Memory} {s s' : Site}

theorem SameHead.of_slot (h : m.slot s.id = m'.slot s'.id) : m.SameHead m' s s' := by
  unfold SameHead label inputColumns
  rw [h]
  exact ⟨rfl, rfl⟩

theorem SameHead.congr {v v' : Memory} (h : m.SameHead m' s s') (hv : v.slot s.id = m.slot s.id)
    (hv' : v'.slot s'.id = m'.slot s'.id) : v.SameHead v' s s' := by
  unfold SameHead label inputColumns
  rw [hv, hv']
  exact h

theorem SameHead.hasInput_eq (h : m.SameHead m' s s') : m.hasInput s = m'.hasInput s' := by
  unfold hasInput
  rw [h.2]

theorem SameHead.name_eq (h : m.SameHead m' s s') : m.name s = m'.name s' := by
  unfold name
  rw [h.1]

theorem SameHead.guarded_eq {α : Type} (h : m.SameHead m' s s') {fitted fitted' : Bool}
    (hf : fitted = fitted') {body body' : Unit → Logged α} (hb : body () = body' ()) (X : Frame) :
    m.guarded s fitted X body = m'.guarded s' fitted' X body' := by
  unfold guarded lacking
  rw [hf, h.1, h.2, hb]

theorem SameHead.output_eq (h : m.SameHead m' s s') (values : Series) (X : Frame) :
    m.output s values X = m'.output s' values X := by
  unfold output
  rw [h.1]

theorem SameHead.singleColumn_eq (h : m.SameHead m' s s') (X out : Frame) :
    m.singleColumn s X out = m'.singleColumn s' X out := by
  unfold singleColumn
  rw [h.1]

theorem SameHead.concatenate_eq (h : m.SameHead m' s s') (names : List Label)
    (outputs : List Frame) (X : Frame) :
    m.concatenate s names outputs X = m'.concatenate s' names outputs X := by
  unfold concatenate
  rw [h.1]

theorem winner_eq (h : m.slot s.id = m'.slot s'.id) : m.winner s = m'.winner s' := by
  unfold winner
  rw [h]

theorem isFittedLeaf_eq (h : m.slot s.id = m'.slot s'.id) :
    m.isFittedLeaf s = m'.isFittedLeaf s' := by
  unfold isFittedLeaf
  rw [h]

theorem applyFitted_eq (h : m.slot s.id = m'.slot s'.id) (X : Frame) :
    m.applyFitted s X = m'.applyFitted s' X := by
  unfold applyFitted label
  rw [h]

theorem predictions_eq (h : m.slot s.id = m'.slot s'.id) (X : Frame) :
    m.predictions s X = m'.predictions s' X := by
  unfold predictions model features label inputColumns
  rw [h]

theorem answer_eq (h : m.slot s.id = m'.slot s'.id) (l : Learner) (X : Frame) :
    m.answer l s X = m'.answer l s' X := by
  unfold answer namedProbabilities model features name
  rw [predictions_eq h]
  unfold label inputColumns
  rw [h]

end Memory

theorem Stacking.stored_eq {m m' : Memory} {s s' : Site}
    (h : (m.slot s.id).learned = (m'.slot s'.id).learned) : stored m s = stored m' s' := by
  unfold stored
  rw [h]

namespace Plan

mutual

/-- Two trees of one plan that hold the same wherever an answer to a frame looks. -/
@[simp] def Agree (m m' : Memory) : Plan → Site → Site → Prop
  | .transformer _, s, s' | .learner _, s, s' => m.slot s.id = m'.slot s'.id
  | .element _, s, s' => m.SameHead m' s s'
  | .sequential ps, s, s' | .parallel ps, s, s' | .vote ps, s, s' =>
    m.SameHead m' s s' ∧ AgreeAll m m' ps s.parts s'.parts
  | .stack t ps _, s, s' =>
    m.slot s.id = m'.slot s'.id ∧ Agree m m' t s.first s'.first ∧ AgreeAll m m' ps s.rest s'.rest
  | .best ps _, s, s' =>
    m.slot s.id = m'.slot s'.id ∧ ∃ i, m.winner s = some i ∧ AgreeAt m m' ps s.parts s'.parts i
  | .bagging t _, s, s' =>
    m.SameHead m' s s' ∧ List.Forall₂ (Agree m m' t) s.rest s'.rest

def AgreeAll (m m' : Memory) : List Plan → List Site → List Site → Prop
  | [], [], [] => True
  | p :: ps, s :: ss, s' :: ss' => Agree m m' p s s' ∧ AgreeAll m m' ps ss ss'
  | _, _, _ => False

@[simp] def AgreeAt (m m' : Memory) : List Plan → List Site → List Site → Nat → Prop
  | p :: _, s :: _, s' :: _, 0 => Agree m m' p s s'
  | _ :: ps, _ :: ss, _ :: ss', i + 1 => AgreeAt m m' ps ss ss' i
  | [], [], [], _ => True
  | _, _, _, _ => False

end

variable {m m' v v' : Memory} {p t : Plan} {ps : List Plan} {s s' : Site} {ss ss' : List Site}

theorem Agree.head (h : Agree m m' p s s') : m.SameHead m' s s' := by
  cases p <;> simp only [Agree] at h
  case transformer => exact .of_slot h
  case learner => exact .of_slot h
  case element => exact h
  case stack => exact .of_slot h.1
  case best => exact .of_slot h.1
  all_goals exact h.1

@[simp] theorem agreeAll_iff : AgreeAll m m' ps ss ss' ↔ Each (Agree m m') ps ss ss' := by
  constructor
  · intro h
    induction ps generalizing ss ss' with
    | nil =>
      rcases ss with _ | ⟨s, ss⟩ <;> rcases ss' with _ | ⟨s', ss'⟩ <;> simp only [AgreeAll] at h
      exact .nil
    | cons p ps ih =>
      rcases ss with _ | ⟨s, ss⟩ <;> rcases ss' with _ | ⟨s', ss'⟩ <;> simp only [AgreeAll] at h
      exact .cons h.1 (ih h.2)
  · intro h
    induction h with
    | nil => simp only [AgreeAll]
    | cons hs _ ih => exact ⟨hs, ih⟩

theorem labelsOf_eq {R : Plan → Site → Site → Prop} (h : Each R ps ss ss')
    (hR : ∀ p s s', R p s s' → m.label s = m'.label s') : m.labelsOf ss = m'.labelsOf ss' := by
  induction h with
  | nil => rfl
  | cons hs _ ih =>
    simp only [Memory.labelsOf, List.map_cons] at ih ⊢
    rw [hR _ _ _ hs, ih]

theorem labelsOf_members_eq (h : List.Forall₂ (Agree m m' t) ss ss') :
    m.labelsOf ss = m'.labelsOf ss' := by
  induction h with
  | nil => rfl
  | cons hs _ ih =>
    simp only [Memory.labelsOf, List.map_cons] at ih ⊢
    rw [hs.head.1, ih]

/-! Agreement is a matter of the slots of the two trees. -/

theorem AgreeAt.congr_of {i : Nat} (h : AgreeAt m m' ps ss ss' i)
    (ih : ∀ p ∈ ps, ∀ s ∈ ss, ∀ s' ∈ ss', Agree m m' p s s' → Agree v v' p s s') :
    AgreeAt v v' ps ss ss' i := by
  induction ps generalizing ss ss' i with
  | nil =>
    rcases ss with _ | ⟨s, ss⟩ <;> rcases ss' with _ | ⟨s', ss'⟩ <;> simp only [AgreeAt] at h ⊢
  | cons p ps ihs =>
    rcases ss with _ | ⟨s, ss⟩ <;> rcases ss' with _ | ⟨s', ss'⟩ <;> rcases i with _ | i <;>
      simp only [AgreeAt] at h ⊢
    · exact ih p (by simp) s (by simp) s' (by simp) h
    · exact ihs h fun q hq r hr r' hr' => ih q (by simp [hq]) r (by simp [hr]) r' (by simp [hr'])

theorem Agree.congr (h : Agree m m' p s s') (hv : ∀ id ∈ s.ids, v.slot id = m.slot id)
    (hv' : ∀ id ∈ s'.ids, v'.slot id = m'.slot id) : Agree v v' p s s' := by
  induction p using Plan.induction generalizing s s'
  all_goals
    simp only [Agree, agreeAll_iff] at h ⊢
    have hid := hv _ s.id_mem_ids
    have hid' := hv' _ s'.id_mem_ids
  case transformer t => rw [hid, hid', h]
  case learner l => rw [hid, hid', h]
  case element e => exact h.congr hid hid'
  case sequential ps ih | parallel ps ih | vote ps ih =>
    refine ⟨h.1.congr hid hid', h.2.imp fun p hp r hr r' hr' h => ih p hp h ?_ ?_⟩
    · exact fun id hid => hv id (Site.mem_ids_of_mem_part hr hid)
    · exact fun id hid => hv' id (Site.mem_ids_of_mem_part hr' hid)
  case stack t ps settings iht ih =>
    obtain ⟨hslot, hfirst, hrest⟩ := h
    refine ⟨by rw [hid, hid', hslot],
      iht hfirst (fun id hid => hv id (Site.mem_ids_of_mem_first hid))
        (fun id hid => hv' id (Site.mem_ids_of_mem_first hid)),
      hrest.imp fun p hp r hr r' hr' h => ih p hp h ?_ ?_⟩
    · exact fun id hid => hv id (Site.mem_ids_of_mem_part (Site.mem_parts_of_mem_rest hr) hid)
    · exact fun id hid => hv' id (Site.mem_ids_of_mem_part (Site.mem_parts_of_mem_rest hr') hid)
  case best ps policy ih =>
    obtain ⟨hslot, i, hi, hat⟩ := h
    refine ⟨by rw [hid, hid', hslot], i, ?_,
      hat.congr_of fun p hp r hr r' hr' h => ih p hp h ?_ ?_⟩
    · unfold Memory.winner at hi ⊢
      rw [hid, hi]
    · exact fun id hid => hv id (Site.mem_ids_of_mem_part hr hid)
    · exact fun id hid => hv' id (Site.mem_ids_of_mem_part hr' hid)
  case bagging t settings ih =>
    refine ⟨h.1.congr hid hid', List.forall₂_iff_get.2 ?_⟩
    obtain ⟨hlen, hall⟩ := List.forall₂_iff_get.1 h.2
    refine ⟨hlen, fun i hi hi' => ih (hall i hi hi') ?_ ?_⟩
    · exact fun id hid => hv id
        (Site.mem_ids_of_mem_part (Site.mem_parts_of_mem_rest (List.getElem_mem hi)) hid)
    · exact fun id hid => hv' id
        (Site.mem_ids_of_mem_part (Site.mem_parts_of_mem_rest (List.getElem_mem hi')) hid)

theorem Agree.extend {S S' : List Nat} (h : Agree m m' p s s') (hs : ∀ id ∈ s.ids, id < m.next)
    (hs' : ∀ id ∈ s'.ids, id < m'.next) (hv : Memory.Extends S m v) (hv' : Memory.Extends S' m' v')
    (hS : ∀ id ∈ s.ids, id ∉ S) (hS' : ∀ id ∈ s'.ids, id ∉ S') : Agree v v' p s s' :=
  h.congr (fun id hid => hv.slot_eq id (hs id hid) (hS id hid))
    fun id hid => hv'.slot_eq id (hs' id hid) (hS' id hid)

theorem extend_agree {S S' : List Nat} (h : Each (Agree m m') ps ss ss')
    (hs : ∀ id ∈ Site.idsOf ss, id < m.next) (hs' : ∀ id ∈ Site.idsOf ss', id < m'.next)
    (hv : Memory.Extends S m v) (hv' : Memory.Extends S' m' v')
    (hS : ∀ id ∈ Site.idsOf ss, id ∉ S) (hS' : ∀ id ∈ Site.idsOf ss', id ∉ S') :
    Each (Agree v v') ps ss ss' := by
  refine h.imp fun p _ r hr r' hr' ha => ?_
  have hmem : ∀ id ∈ r.ids, id ∈ Site.idsOf ss := fun id hid => Site.mem_idsOf.2 ⟨r, hr, hid⟩
  have hmem' : ∀ id ∈ r'.ids, id ∈ Site.idsOf ss' := fun id hid => Site.mem_idsOf.2 ⟨r', hr', hid⟩
  exact ha.extend (fun id hid => hs id (hmem id hid)) (fun id hid => hs' id (hmem' id hid)) hv hv'
    (fun id hid => hS id (hmem id hid)) fun id hid => hS' id (hmem' id hid)

/-! A tree is fitted whenever one that agrees with it is. -/

theorem allFitted_eq (h : Each (Agree m m') ps ss ss')
    (ih : ∀ p ∈ ps, ∀ s s', Agree m m' p s s' → isFitted m p s = isFitted m' p s') :
    allFitted m ps ss = allFitted m' ps ss' := by
  induction h with
  | nil => simp only [allFitted]
  | cons hs _ ihs =>
    simp only [allFitted]
    rw [ih _ (by simp) _ _ hs, ihs fun q hq => ih q (by simp [hq])]

theorem AgreeAt.fittedAt_eq {i : Nat} (h : AgreeAt m m' ps ss ss' i)
    (ih : ∀ p ∈ ps, ∀ s s', Agree m m' p s s' → isFitted m p s = isFitted m' p s') :
    fittedAt m ps ss i = fittedAt m' ps ss' i := by
  induction ps generalizing ss ss' i with
  | nil => simp only [fittedAt]
  | cons p ps ihs =>
    rcases ss with _ | ⟨s, ss⟩ <;> rcases ss' with _ | ⟨s', ss'⟩ <;> rcases i with _ | i <;>
      simp only [AgreeAt] at h
    · exact ih p (by simp) s s' h
    · exact ihs h fun q hq => ih q (by simp [hq])

theorem Agree.isFitted_eq (h : Agree m m' p s s') : isFitted m p s = isFitted m' p s' := by
  induction p using Plan.induction generalizing s s'
  all_goals
    have hhead := h.head.hasInput_eq
    simp only [Agree, agreeAll_iff] at h
    simp only [isFitted, hhead]
  case transformer t => rw [Memory.isFittedLeaf_eq h]
  case learner l => rw [Memory.isFittedLeaf_eq h]
  case sequential ps ih | parallel ps ih | vote ps ih =>
    rw [allFitted_eq h.2 fun p hp _ _ => ih p hp]
  case stack t ps settings iht ih =>
    rw [iht h.2.1, allFitted_eq h.2.2 fun p hp _ _ => ih p hp]
  case best ps policy ih =>
    obtain ⟨hslot, i, hi, hat⟩ := h
    rw [← Memory.winner_eq hslot, hi]
    simp only [hat.fittedAt_eq fun p hp _ _ => ih p hp]
  case bagging t settings ih =>
    have hall : ∀ rs rs', List.Forall₂ (Agree m m' t) rs rs' →
        (rs.all fun r => isFitted m t r) = rs'.all fun r => isFitted m' t r := by
      intro rs rs' hrs
      induction hrs with
      | nil => rfl
      | cons hr _ ihs => simp only [List.all_cons, ih hr, ihs]
    rw [hall _ _ h.2]

/-! A tree answers every frame like one that agrees with it, with the same notices. -/

/-- One plan answers alike wherever its trees agree. -/
def Answers (m m' : Memory) (p : Plan) : Prop :=
  ∀ s s', Agree m m' p s s' → ∀ X, transform m p s X = transform m' p s' X

theorem Answers.labels_eq (ih : Answers m m' p) (h : Agree m m' p s s') (X : Frame) :
    (m.labels p s X fun _ => transform m p s X) =
      m'.labels p s' X fun _ => transform m' p s' X := by
  cases p <;> unfold Memory.labels
  case learner l =>
    refine h.head.guarded_eq h.isFitted_eq ?_ X
    simp only [Agree] at h
    exact Memory.predictions_eq h X
  all_goals simp only [ih s s' h, h.head.singleColumn_eq]

theorem chain_eq (h : Each (Agree m m') ps ss ss') (ih : ∀ p ∈ ps, Answers m m' p) (X : Frame) :
    chain m ps ss X = chain m' ps ss' X := by
  induction h generalizing X with
  | nil => simp only [chain]
  | cons hs _ ihs =>
    have htail := ihs fun q hq => ih q (by simp [hq])
    simp only [chain, ih _ (by simp) _ _ hs, htail]

theorem outputs_eq (h : Each (Agree m m') ps ss ss') (ih : ∀ p ∈ ps, Answers m m' p) (X : Frame) :
    outputs m ps ss X = outputs m' ps ss' X := by
  induction h with
  | nil => simp only [outputs]
  | cons hs _ ihs =>
    have htail := ihs fun q hq => ih q (by simp [hq])
    simp only [outputs, ih _ (by simp) _ _ hs, htail]

theorem labelsOfAll_eq (h : Each (Agree m m') ps ss ss') (ih : ∀ p ∈ ps, Answers m m' p)
    (X : Frame) : labelsOfAll m ps ss X = labelsOfAll m' ps ss' X := by
  induction h with
  | nil => simp only [labelsOfAll]
  | cons hs _ ihs =>
    have htail := ihs fun q hq => ih q (by simp [hq])
    simp only [labelsOfAll, htail]
    rw [(ih _ (by simp)).labels_eq hs X]

theorem AgreeAt.labelsAt_eq {i : Nat} (h : AgreeAt m m' ps ss ss' i)
    (ih : ∀ p ∈ ps, Answers m m' p) (X : Frame) :
    labelsAt m ps ss i X = labelsAt m' ps ss' i X := by
  induction ps generalizing ss ss' i with
  | nil => simp only [labelsAt]
  | cons p ps ihs =>
    rcases ss with _ | ⟨s, ss⟩ <;> rcases ss' with _ | ⟨s', ss'⟩ <;> rcases i with _ | i <;>
      simp only [AgreeAt] at h
    all_goals simp only [labelsAt]
    · exact (ih p (by simp)).labels_eq h X
    · exact ihs h fun q hq => ih q (by simp [hq])

theorem mapM_labels_eq (h : List.Forall₂ (Agree m m' t) ss ss') (ih : Answers m m' t)
    (X : Frame) :
    (ss.mapM fun r => m.labels t r X fun _ => transform m t r X) =
      ss'.mapM fun r => m'.labels t r X fun _ => transform m' t r X := by
  unfold List.mapM
  generalize [] = found
  induction h generalizing found with
  | nil => rfl
  | cons hr _ ihs =>
    simp only [List.mapM.loop, ihs]
    rw [ih.labels_eq hr X]

theorem answers (m m' : Memory) (p : Plan) : Answers m m' p := by
  induction p using Plan.induction
  -- Whether a node may answer depends on the whole tree, so that comes before the answer itself.
  all_goals
    intro s s' h X
    have hhead := h.head
    have hfitted := h.isFitted_eq
    simp only [transform]
    refine hhead.guarded_eq hfitted ?_ X
    simp only [Agree, agreeAll_iff] at h
  case transformer t => exact Memory.applyFitted_eq h X
  case learner l => exact Memory.answer_eq h l X
  case element e => rw [hhead.name_eq]
  case sequential ps ih => exact chain_eq h.2 ih X
  case parallel ps ih =>
    rw [outputs_eq h.2 ih X, labelsOf_eq h.2 fun _ _ _ h => h.head.1]
    simp only [hhead.concatenate_eq]
  case vote ps ih =>
    rw [labelsOfAll_eq h.2 ih X, labelsOf_eq h.2 fun _ _ _ h => h.head.1]
    simp only [hhead.output_eq]
  case stack t ps settings iht ih =>
    obtain ⟨hslot, hfirst, hrest⟩ := h
    rw [labelsOfAll_eq hrest ih X, labelsOf_eq hrest fun _ _ _ h => h.head.1,
      Stacking.stored_eq (congrArg Slot.learned hslot)]
    simp only [iht.labels_eq hfirst, hhead.output_eq]
  case best ps policy ih =>
    obtain ⟨hslot, i, hi, hat⟩ := h
    rw [← Memory.winner_eq hslot, hi]
    simp only [Option.getD_some, hat.labelsAt_eq ih X, hhead.output_eq]
  case bagging t settings ih =>
    rw [mapM_labels_eq h.2 ih X, labelsOf_members_eq h.2]
    simp only [hhead.output_eq]

theorem Agree.transform_eq (h : Agree m m' p s s') (X : Frame) :
    transform m p s X = transform m' p s' X :=
  answers m m' p s s' h X

theorem Agree.labels_eq (h : Agree m m' p s s') (X : Frame) :
    (m.labels p s X fun _ => transform m p s X) =
      m'.labels p s' X fun _ => transform m' p s' X :=
  (answers m m' p).labels_eq h X

end Plan
end ColumnFlow
