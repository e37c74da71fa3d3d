import ColumnFlow.Node.Fit
import ColumnFlow.Proofs.Node.Agreement
import ColumnFlow.Proofs.Node.Matching

/-!
# Fitting two trees

What a fit does to the memory, for two trees of one plan side by side. The parts of a node are
fitted one after another; each leaves the slots of the others alone, so that what was achieved for
one part lasts while the next is fitted.
-/
namespace ColumnFlow

namespace Memory

/-- What two runs side by side may have done to their memories. -/
def Kept (S S' : List Nat) (m₀ m₀' m m' : Memory) : Prop := Extends S m₀ m ∧ Extends S' m₀' m'

namespace Kept

variable {S S' T T' : List Nat} {m₀ m₀' m m' n n' : Memory}

theorem refl (S S' : List Nat) (m m' : Memory) : Kept S S' m m' m m' := ⟨.refl _ _, .refl _ _⟩

theorem trans (h : Kept S S' m₀ m₀' m m') (h' : Kept T T' m m' n n')
    (hT : ∀ id ∈ T, id ∈ S ∨ m₀.next ≤ id) (hT' : ∀ id ∈ T', id ∈ S' ∨ m₀'.next ≤ id) :
    Kept S S' m₀ m₀' n n' :=
  ⟨h.1.trans h'.1 hT, h.2.trans h'.2 hT'⟩

theorem within (h : Kept S S' m₀ m₀' m m') (h' : Kept T T' m m' n n') (hT : ∀ id ∈ T, id ∈ S)
    (hT' : ∀ id ∈ T', id ∈ S') : Kept S S' m₀ m₀' n n' :=
  h.trans h' (fun id hid => .inl (hT id hid)) fun id hid => .inl (hT' id hid)

theorem self (h : Kept S S' m₀ m₀' m m') (h' : Kept S S' m m' n n') : Kept S S' m₀ m₀' n n' :=
  h.within h' (fun _ hid => hid) fun _ hid => hid

theorem after (h : Kept S S' m₀ m₀' m m') (h' : Kept [] [] m m' n n') : Kept S S' m₀ m₀' n n' :=
  h.within h' (by simp) (by simp)

section Parts

variable {s s' : Site}

theorem parts (h : Kept s.ids s'.ids m₀ m₀' m m')
    (h' : Kept (Site.idsOf s.parts) (Site.idsOf s'.parts) m m' n n') :
    Kept s.ids s'.ids m₀ m₀' n n' :=
  h.within h' (fun _ => Site.mem_ids_of_mem_idsOf_parts) fun _ => Site.mem_ids_of_mem_idsOf_parts

theorem rest (h : Kept s.ids s'.ids m₀ m₀' m m')
    (h' : Kept (Site.idsOf s.rest) (Site.idsOf s'.rest) m m' n n') :
    Kept s.ids s'.ids m₀ m₀' n n' :=
  h.within h' (fun _ => Site.mem_ids_of_mem_idsOf_rest) fun _ => Site.mem_ids_of_mem_idsOf_rest

theorem first (h : Kept s.ids s'.ids m₀ m₀' m m')
    (h' : Kept s.first.ids s'.first.ids m m' n n') : Kept s.ids s'.ids m₀ m₀' n n' :=
  h.within h' (fun _ => Site.mem_ids_of_mem_first) fun _ => Site.mem_ids_of_mem_first

end Parts

theorem mono (h : Kept S S' m₀ m₀' m m') (hT : ∀ id ∈ S, id ∈ T) (hT' : ∀ id ∈ S', id ∈ T') :
    Kept T T' m₀ m₀' m m' :=
  ⟨h.1.mono hT, h.2.mono hT'⟩

end Kept

def withInput (m : Memory) (s : Site) (columns : Option (List Label)) : Memory :=
  m.update s.id fun slot => { slot with inputColumns := columns }

def withLearned (m : Memory) (s : Site) (learned : Learned) : Memory :=
  m.update s.id fun slot => { slot with learned }

def learned (m : Memory) (s : Site) : Learned := (m.slot s.id).learned

variable {m m' : Memory} {s s' : Site}

theorem extends_withInput (m : Memory) (s : Site) (columns : Option (List Label)) :
    Extends s.ids m (m.withInput s columns) := by
  unfold withInput
  exact .update s.id_mem_ids (fun _ => by rfl) m

theorem extends_withLearned (m : Memory) (s : Site) (l : Learned) :
    Extends s.ids m (m.withLearned s l) := by
  unfold withLearned
  exact .update s.id_mem_ids (fun _ => by rfl) m

theorem learned_withLearned (hs : s.id < m.next) (l : Learned) :
    (m.withLearned s l).learned s = l := by
  unfold learned withLearned
  rw [slot_update_self hs]

theorem slot_withInput_of_ne {columns : Option (List Label)} {id : Nat} (h : id ≠ s.id) :
    (m.withInput s columns).slot id = m.slot id :=
  slot_update_of_ne h

theorem slot_withInput_self {columns : Option (List Label)} (hs : s.id < m.next) :
    (m.withInput s columns).slot s.id = { m.slot s.id with inputColumns := columns } :=
  slot_update_self hs

theorem sameHead_withInput (hs : s.id < m.next) (hs' : s'.id < m'.next)
    (h : m.label s = m'.label s') (columns : Option (List Label)) :
    (m.withInput s columns).SameHead (m'.withInput s' columns) s s' := by
  unfold SameHead label inputColumns
  rw [slot_withInput_self hs, slot_withInput_self hs']
  exact ⟨h, rfl⟩

theorem slot_withInput_eq (hs : s.id < m.next) (hs' : s'.id < m'.next)
    (h : m.label s = m'.label s') (hl : m.learned s = m'.learned s')
    (columns : Option (List Label)) :
    (m.withInput s columns).slot s.id = (m'.withInput s' columns).slot s'.id := by
  unfold label at h
  unfold learned at hl
  rw [slot_withInput_self hs, slot_withInput_self hs']
  simp only [h, hl]

end Memory

namespace Work

variable {α : Type}

theorem run_memory_bind (f : Memory → Work α) (w : Workspace) :
    (memory >>= f) w = f w.memory w := rfl

theorem run_setInput (s : Site) (columns : Option (List Label)) (w : Workspace) :
    setInput s columns w = (.ok (), { w with memory := w.memory.withInput s columns }) := rfl

theorem run_setInput_bind (s : Site) (columns : Option (List Label)) (f : Unit → Work α)
    (w : Workspace) :
    (setInput s columns >>= f) w = f () { w with memory := w.memory.withInput s columns } := rfl

theorem run_setLearned (s : Site) (l : Learned) (w : Workspace) :
    setLearned s l w = (.ok (), { w with memory := w.memory.withLearned s l }) := rfl

theorem run_setLearned_bind (s : Site) (l : Learned) (f : Unit → Work α) (w : Workspace) :
    (setLearned s l >>= f) w = f () { w with memory := w.memory.withLearned s l } := rfl

theorem run_settings {env : Surroundings} {defaults : Settings}
    (h : env.settings = .ok defaults) (w : Workspace) :
    settings env w = (.ok defaults, { w with consulted := true }) := by
  unfold settings
  rw [h]
  rfl

theorem run_labelOf_bind (s : Site) (f : Label → Work α) (w : Workspace) :
    (labelOf s >>= f) w = f (w.memory.label s) w := rfl

variable {w w' : Workspace} {s s' : Site} {m₀ m₀' : Memory} {X : Frame} {y : Option Series}

/-- A node is fitted like another if the bodies of the two fits match. -/
theorem fitting_matched {body body' : Option Series → Work Unit} {R Q : Memory → Memory → Prop}
    (hbody : ∀ y v v', Memory.Kept s.ids s'.ids w.memory w'.memory v.memory v'.memory →
      Matched (fun _ _ m m' => Memory.Kept s.ids s'.ids w.memory w'.memory m m' ∧ R m m')
        (Memory.Kept s.ids s'.ids w.memory w'.memory) (body y v) (body' y v'))
    (hend : ∀ m m', Memory.Kept s.ids s'.ids w.memory w'.memory m m' → R m m' →
      Q (m.withInput s (some X.labels)) (m'.withInput s' (some X.labels))) :
    Matched (fun _ _ m m' => Memory.Kept s.ids s'.ids w.memory w'.memory m m' ∧ Q m m')
      (Memory.Kept s.ids s'.ids w.memory w'.memory) (fitting s X y body w)
      (fitting s' X y body' w') := by
  unfold fitting
  refine .keep (.except _) (.refl _ _ _ _) fun y v v' hv => ?_
  have hinput : ∀ m m' columns, Memory.Kept s.ids s'.ids w.memory w'.memory m m' →
      Memory.Kept s.ids s'.ids w.memory w'.memory (m.withInput s columns)
        (m'.withInput s' columns) := fun m m' columns h =>
    h.self ⟨m.extends_withInput s columns, m'.extends_withInput s' columns⟩
  rw [run_setInput_bind, run_setInput_bind]
  refine .bind (hbody y _ _ (hinput _ _ none hv)) (fun _ _ h => h) fun _ _ u u' hu => ?_
  rw [run_setInput, run_setInput]
  exact ⟨hinput _ _ _ hu.1, hend _ _ hu.1 hu.2⟩

end Work
namespace Plan

attribute [simp] fit fitAll fitChain fitAt

/-- Two trees of one plan that can be fitted side by side: they are alike, and each stands on
identities of its own. -/
structure Ready (m m' : Memory) (p : Plan) (s s' : Site) : Prop where
  alike : Alike m m' p s s'
  left : m.Holds s.ids
  right : m'.Holds s'.ids

/-- The same of some parts of two trees. -/
structure ReadyAll (m m' : Memory) (ps : List Plan) (ss ss' : List Site) : Prop where
  alike : Each (Alike m m') ps ss ss'
  left : m.Holds (Site.idsOf ss)
  right : m'.Holds (Site.idsOf ss')

variable {S S' : List Nat} {m m' v v' : Memory} {p q t : Plan} {ps : List Plan} {s s' : Site}
  {ss ss' : List Site} {env : Surroundings}

theorem Ready.keep (h : Ready m m' p s s') (hk : Memory.Kept S S' m m' v v') :
    Ready v v' p s s' :=
  ⟨h.alike.extend h.left.taken h.right.taken hk.1 hk.2, h.left.extend hk.1, h.right.extend hk.2⟩

theorem ReadyAll.keep (h : ReadyAll m m' ps ss ss') (hk : Memory.Kept S S' m m' v v') :
    ReadyAll v v' ps ss ss' :=
  ⟨extend_alike h.alike h.left.taken h.right.taken hk.1 hk.2, h.left.extend hk.1,
    h.right.extend hk.2⟩

theorem ReadyAll.head (h : ReadyAll m m' (p :: ps) (s :: ss) (s' :: ss')) :
    Ready m m' p s s' := by
  obtain ⟨halike, hs, hs'⟩ := h
  cases halike with
  | cons hp _ => exact ⟨hp, hs.left, hs'.left⟩

theorem ReadyAll.tail (h : ReadyAll m m' (p :: ps) (s :: ss) (s' :: ss')) :
    ReadyAll m m' ps ss ss' := by
  obtain ⟨halike, hs, hs'⟩ := h
  cases halike with
  | cons _ hps => exact ⟨hps, hs.right, hs'.right⟩

/-- Fitting trees of one plan on the same data ends in the same way whatever they have learned
before, and trees that were fitted agree. -/
def Refits (env : Surroundings) (p : Plan) : Prop :=
  ∀ s s' X y w w', Ready w.memory w'.memory p s s' →
    Work.Matched
      (fun _ _ m m' => Memory.Kept s.ids s'.ids w.memory w'.memory m m' ∧ Agree m m' p s s')
      (Memory.Kept s.ids s'.ids w.memory w'.memory) (fit env p s X y w) (fit env p s' X y w')

theorem kept_cons (hk : Memory.Kept s.ids s'.ids m m' v v') {n n' : Memory}
    (hk' : Memory.Kept (Site.idsOf ss) (Site.idsOf ss') v v' n n') :
    Memory.Kept (Site.idsOf (s :: ss)) (Site.idsOf (s' :: ss')) m m' n n' := by
  refine (hk.mono (fun id hid => ?_) fun id hid => ?_).within hk' (fun id hid => ?_)
    fun id hid => ?_
  all_goals simp only [Site.idsOf, List.mem_append, hid, true_or, or_true]

/-- What was achieved for the first part lasts while the others are fitted. -/
theorem ReadyAll.agree_head (h : ReadyAll m m' (p :: ps) (s :: ss) (s' :: ss'))
    (hk : Memory.Kept s.ids s'.ids m m' v v') (ha : Agree v v' p s s') {n n' : Memory}
    (hk' : Memory.Kept (Site.idsOf ss) (Site.idsOf ss') v v' n n') : Agree n n' p s s' :=
  ha.extend (h.head.left.extend hk.1).taken (h.head.right.extend hk.2).taken hk'.1 hk'.2
    (fun _ => h.left.disjoint) fun _ => h.right.disjoint

theorem fitAll_matched (ih : ∀ p ∈ ps, Refits env p) {X : Frame} {y : Option Series}
    {w w' : Workspace} (h : ReadyAll w.memory w'.memory ps ss ss') :
    Work.Matched
      (fun _ _ m m' => Memory.Kept (Site.idsOf ss) (Site.idsOf ss') w.memory w'.memory m m' ∧
        Each (Agree m m') ps ss ss')
      (Memory.Kept (Site.idsOf ss) (Site.idsOf ss') w.memory w'.memory)
      (fitAll env ps ss X y w) (fitAll env ps ss' X y w') := by
  induction ps generalizing ss ss' w w' with
  | nil =>
    cases h.alike
    simp only [fitAll]
    exact ⟨.refl _ _ _ _, .nil⟩
  | cons p ps ihs =>
    cases h.alike with
    | @cons _ _ s s' ss ss' _ _ =>
      simp only [fitAll]
      refine .bind (ih p (by simp) s s' X y w w' h.head)
        (fun _ _ hk => kept_cons hk (.refl _ _ _ _)) fun _ _ v v' hv => ?_
      have htail := ihs (fun q hq => ih q (by simp [hq])) (h.tail.keep hv.1)
      refine htail.mono (fun _ _ n n' hn => ⟨kept_cons hv.1 hn.1, .cons ?_ hn.2⟩)
        fun _ _ hn => kept_cons hv.1 hn
      exact h.agree_head hv.1 hv.2 hn.1

theorem fitChain_matched (ih : ∀ p ∈ ps, Refits env p) {X : Frame} {y : Option Series}
    {w w' : Workspace} (h : ReadyAll w.memory w'.memory ps ss ss') :
    Work.Matched
      (fun _ _ m m' => Memory.Kept (Site.idsOf ss) (Site.idsOf ss') w.memory w'.memory m m' ∧
        Each (Agree m m') ps ss ss')
      (Memory.Kept (Site.idsOf ss) (Site.idsOf ss') w.memory w'.memory)
      (fitChain env ps ss X y w) (fitChain env ps ss' X y w') := by
  induction ps generalizing ss ss' X w w' with
  | nil =>
    cases h.alike
    simp only [fitChain]
    exact ⟨.refl _ _ _ _, .nil⟩
  | cons p ps ihs =>
    cases h.alike with
    | @cons _ _ s s' ss ss' _ hps =>
      have hfirst := ih p (by simp) s s' X y w w' h.head
      cases ps with
      | nil =>
        cases hps
        simp only [fitChain]
        refine hfirst.mono (fun _ _ m m' hm => ?_) fun _ _ hm => kept_cons hm (.refl _ _ _ _)
        exact ⟨kept_cons hm.1 (.refl _ _ _ _), .cons hm.2 .nil⟩
      | cons q ps =>
        simp only [fitChain]
        refine .bind hfirst (fun _ _ hk => kept_cons hk (.refl _ _ _ _)) fun _ _ v v' hv => ?_
        -- The first parts answer alike, so both chains go on with one frame.
        rw [Work.run_memory_bind, Work.run_memory_bind, hv.2.transform_eq X]
        refine .steady (P := fun m m' => Memory.Kept s.ids s'.ids w.memory w'.memory m m' ∧
          Agree m m' p s s') (.logged _) hv (fun _ _ hm => kept_cons hm.1 (.refl _ _ _ _))
          fun Z v v' hv => ?_
        have htail := ihs (X := Z) (fun q hq => ih q (by simp [hq])) (h.tail.keep hv.1)
        refine htail.mono (fun _ _ n n' hn => ⟨kept_cons hv.1 hn.1, .cons ?_ hn.2⟩)
          fun _ _ hn => kept_cons hv.1 hn
        exact h.agree_head hv.1 hv.2 hn.1

theorem fitAt_matched (ih : ∀ p ∈ ps, Refits env p) {X : Frame} {y : Series} {i : Nat}
    {w w' : Workspace} (h : ReadyAll w.memory w'.memory ps ss ss') :
    Work.Matched
      (fun _ _ m m' => Memory.Kept (Site.idsOf ss) (Site.idsOf ss') w.memory w'.memory m m' ∧
        AgreeAt m m' ps ss ss' i)
      (Memory.Kept (Site.idsOf ss) (Site.idsOf ss') w.memory w'.memory)
      (fitAt env ps ss i X y w) (fitAt env ps ss' i X y w') := by
  induction ps generalizing ss ss' i with
  | nil =>
    cases h.alike
    simp only [fitAt]
    exact ⟨.refl _ _ _ _, by simp only [AgreeAt]⟩
  | cons p ps ihs =>
    cases h.alike with
    | @cons _ _ s s' ss ss' _ _ =>
      cases i with
      | zero =>
        simp only [fitAt, AgreeAt]
        exact (ih p (by simp) s s' X (some y) w w' h.head).mono
          (fun _ _ _ _ hv => ⟨kept_cons hv.1 (.refl _ _ _ _), hv.2⟩)
          fun _ _ hv => kept_cons hv (.refl _ _ _ _)
      | succ i =>
        simp only [fitAt, AgreeAt]
        exact (ihs (fun q hq => ih q (by simp [hq])) h.tail).mono
          (fun _ _ _ _ hv => ⟨kept_cons (.refl _ _ _ _) hv.1, hv.2⟩)
          fun _ _ hv => kept_cons (.refl _ _ _ _) hv

theorem each_replicate {R : Plan → Site → Site → Prop} {n : Nat} (hss : ss.length = n)
    (hss' : ss'.length = n) (h : ∀ s ∈ ss, ∀ s' ∈ ss', R t s s') :
    Each R (List.replicate n t) ss ss' := by
  induction n generalizing ss ss' with
  | zero =>
    rw [List.length_eq_zero_iff.1 hss, List.length_eq_zero_iff.1 hss']
    exact .nil
  | succ n ih =>
    obtain ⟨s, ss, rfl⟩ := List.exists_cons_of_length_eq_add_one hss
    obtain ⟨s', ss', rfl⟩ := List.exists_cons_of_length_eq_add_one hss'
    rw [List.length_cons, Nat.add_right_cancel_iff] at hss hss'
    exact .cons (h s (by simp) s' (by simp))
      (ih hss hss' fun r hr r' hr' => h r (by simp [hr]) r' (by simp [hr']))

theorem forall₂_of_each_replicate {R : Plan → Site → Site → Prop} {n : Nat}
    (h : Each R (List.replicate n t) ss ss') : List.Forall₂ (R t) ss ss' := by
  induction n generalizing ss ss' with
  | zero =>
    cases h
    exact .nil
  | succ n ih =>
    cases h with
    | cons hs h => exact .cons hs (ih h)

/-- Members of a bagging ensemble are fitted on samples that do not depend on what was learned. -/
theorem fitMembers_matched (ih : Refits env t) {X : Frame} {y : Series} {size n : Nat}
    {source : Draw.Twister} {w w' : Workspace}
    (h : ReadyAll w.memory w'.memory (List.replicate n t) ss ss') :
    Work.Matched
      (fun _ _ m m' => Memory.Kept (Site.idsOf ss) (Site.idsOf ss') w.memory w'.memory m m' ∧
        Each (Agree m m') (List.replicate n t) ss ss')
      (Memory.Kept (Site.idsOf ss) (Site.idsOf ss') w.memory w'.memory)
      ((ss.foldlM (fun source member => do
        let (rows, source) := Draw.Twister.sample X.rows size source
        fit env t member (X.takeRows rows) (some (y.takeRows rows))
        return source) source : Work Draw.Twister) w)
      ((ss'.foldlM (fun source member => do
        let (rows, source) := Draw.Twister.sample X.rows size source
        fit env t member (X.takeRows rows) (some (y.takeRows rows))
        return source) source : Work Draw.Twister) w') := by
  induction n generalizing ss ss' source w w' with
  | zero =>
    cases h.alike
    exact ⟨.refl _ _ _ _, .nil⟩
  | succ n ihn =>
    cases h.alike with
    | @cons _ _ s s' ss ss' _ _ =>
      simp only [List.foldlM_cons]
      rcases Draw.Twister.sample X.rows size source with ⟨rows, source⟩
      refine .bind (.bind (ih s s' _ _ w w' h.head) (fun _ _ hk => hk) fun _ _ v v' hv => ?_)
        (Q := fun a b m m' => a = b ∧ Memory.Kept s.ids s'.ids w.memory w'.memory m m' ∧
          Agree m m' t s s') (fun _ _ hk => kept_cons hk (.refl _ _ _ _)) fun a b v v' hv => ?_
      · exact .pure ⟨rfl, hv⟩
      · obtain ⟨rfl, hk, ha⟩ := hv
        refine (ihn (h.tail.keep hk)).mono (fun _ _ n n' hn => ⟨kept_cons hk hn.1, .cons ?_ hn.2⟩)
          fun _ _ hn => kept_cons hk hn
        exact h.agree_head hk ha hn.1

end Plan
end ColumnFlow
