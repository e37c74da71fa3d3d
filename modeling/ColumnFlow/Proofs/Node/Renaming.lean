import ColumnFlow.Proofs.Node.Agreement
import ColumnFlow.Proofs.Node.Copying

/-!
# Trees under other identities

A tree reads the slots of its own identities and no others, and it does not matter which identities
these are. So a tree answers like the same tree under other identities over equal slots, whatever
its shape, and positions that share an identity may go on sharing one. Trees are copied side by side
from some place on, under identities that are shifted.
-/
namespace ColumnFlow

namespace Site

variable {f : Nat → Nat}

@[simp] theorem id_rename (f : Nat → Nat) (s : Site) : (s.rename f).id = f s.id := by
  cases s with
  | mk id parts => rfl

theorem renameAll_eq_map (f : Nat → Nat) (ss : List Site) :
    renameAll f ss = ss.map (rename f) := by
  induction ss with
  | nil => rfl
  | cons s ss ih => simp only [renameAll, List.map_cons, ih]

@[simp] theorem parts_rename (f : Nat → Nat) (s : Site) :
    (s.rename f).parts = s.parts.map (rename f) := by
  cases s with
  | mk id parts => exact renameAll_eq_map f parts

@[simp] theorem first_rename (f : Nat → Nat) (s : Site) :
    (s.rename f).first = s.first.rename f := by
  unfold first
  rw [parts_rename]
  cases s.parts with
  | nil => simp [rename, renameAll]
  | cons r rs => rfl

@[simp] theorem rest_rename (f : Nat → Nat) (s : Site) :
    (s.rename f).rest = s.rest.map (rename f) := by
  unfold rest
  rw [parts_rename, List.map_tail]

mutual

theorem rename_eq_self (hf : ∀ i, f i = i) : (s : Site) → s.rename f = s
  | .mk i parts => by
    have hparts := renameAll_eq_self hf parts
    simp only [rename, hparts, hf]

theorem renameAll_eq_self (hf : ∀ i, f i = i) : (ss : List Site) → renameAll f ss = ss
  | [] => rfl
  | s :: ss => by
    have hs := rename_eq_self hf s
    have hss := renameAll_eq_self hf ss
    simp only [renameAll, hs, hss]

end

mutual

theorem ids_rename (f : Nat → Nat) : (s : Site) → (s.rename f).ids = s.ids.map f
  | .mk i parts => by
    have hparts := idsOf_renameAll f parts
    simp only [rename, ids, List.map_cons, hparts]

theorem idsOf_renameAll (f : Nat → Nat) : (ss : List Site) →
    idsOf (renameAll f ss) = (idsOf ss).map f
  | [] => rfl
  | s :: ss => by
    have hs := ids_rename f s
    have hss := idsOf_renameAll f ss
    simp only [renameAll, idsOf, List.map_append, hs, hss]

end

theorem map_rename_eq_self (hf : ∀ i, f i = i) (ss : List Site) : ss.map (rename f) = ss := by
  rw [← renameAll_eq_map, renameAll_eq_self hf]

end Site

namespace Memory

/-- What one memory holds under some identities, another holds under their new names. -/
def Renamed (f : Nat → Nat) (ids : List Nat) (m m' : Memory) : Prop :=
  ∀ id ∈ ids, m.slot id = m'.slot (f id)

namespace Renamed

variable {f : Nat → Nat} {ids ids' : List Nat} {m m' : Memory} {s r : Site} {ss : List Site}

theorem mono (h : Renamed f ids m m') (hids : ∀ id ∈ ids', id ∈ ids) : Renamed f ids' m m' :=
  fun id hid => h id (hids id hid)

theorem slot_eq (h : Renamed f s.ids m m') : m.slot s.id = m'.slot (s.rename f).id := by
  rw [Site.id_rename]
  exact h s.id s.id_mem_ids

theorem head (h : Renamed f s.ids m m') : m.SameHead m' s (s.rename f) := .of_slot h.slot_eq

theorem parts (h : Renamed f s.ids m m') : Renamed f (Site.idsOf s.parts) m m' :=
  h.mono fun _ => Site.mem_ids_of_mem_idsOf_parts

theorem rest (h : Renamed f s.ids m m') : Renamed f (Site.idsOf s.rest) m m' :=
  h.mono fun _ => Site.mem_ids_of_mem_idsOf_rest

theorem first (h : Renamed f s.ids m m') : Renamed f s.first.ids m m' :=
  h.mono fun _ => Site.mem_ids_of_mem_first

theorem cons (h : Renamed f (Site.idsOf (s :: ss)) m m') :
    Renamed f s.ids m m' ∧ Renamed f (Site.idsOf ss) m m' :=
  ⟨h.mono fun _ hid => by simp [Site.idsOf, hid], h.mono fun _ hid => by simp [Site.idsOf, hid]⟩

theorem labelsOf_eq (h : Renamed f (Site.idsOf ss) m m') :
    m.labelsOf ss = m'.labelsOf (ss.map (Site.rename f)) := by
  induction ss with
  | nil => rfl
  | cons s ss ih =>
    have htail := ih h.cons.2
    simp only [labelsOf, List.map_cons] at htail ⊢
    rw [h.cons.1.head.1, htail]

end Renamed
end Memory

namespace Plan

variable {f : Nat → Nat} {m m' : Memory} {p t : Plan} {ps : List Plan} {s : Site}
  {ss : List Site}

/-! Whether a tree is fitted. -/

theorem allFitted_rename
    (ih : ∀ p ∈ ps, ∀ s, m.Renamed f s.ids m' → isFitted m p s = isFitted m' p (s.rename f))
    (h : m.Renamed f (Site.idsOf ss) m') :
    allFitted m ps ss = allFitted m' ps (ss.map (Site.rename f)) := by
  induction ps generalizing ss with
  | nil => simp only [allFitted]
  | cons p ps ihs =>
    cases ss with
    | nil => simp only [allFitted, List.map_nil]
    | cons s ss =>
      simp only [allFitted, List.map_cons]
      rw [ih p (by simp) s h.cons.1, ihs (fun q hq => ih q (by simp [hq])) h.cons.2]

theorem fittedAt_rename {i : Nat}
    (ih : ∀ p ∈ ps, ∀ s, m.Renamed f s.ids m' → isFitted m p s = isFitted m' p (s.rename f))
    (h : m.Renamed f (Site.idsOf ss) m') :
    fittedAt m ps ss i = fittedAt m' ps (ss.map (Site.rename f)) i := by
  induction ps generalizing ss i with
  | nil => simp only [fittedAt]
  | cons p ps ihs =>
    cases ss with
    | nil => simp only [fittedAt, List.map_nil]
    | cons s ss =>
      cases i with
      | zero => exact ih p (by simp) s h.cons.1
      | succ i => exact ihs (fun q hq => ih q (by simp [hq])) h.cons.2

theorem isFitted_rename (h : m.Renamed f s.ids m') :
    isFitted m p s = isFitted m' p (s.rename f) := by
  induction p using Plan.induction generalizing s
  all_goals
    have hhead := h.head.hasInput_eq
    simp only [isFitted, hhead, Site.parts_rename, Site.first_rename, Site.rest_rename]
  case transformer t | learner l => rw [Memory.isFittedLeaf_eq h.slot_eq]
  case sequential ps ih | parallel ps ih | vote ps ih =>
    rw [allFitted_rename (fun p hp _ => ih p hp) h.parts]
  case stack t ps settings iht ih =>
    rw [iht h.first, allFitted_rename (fun p hp _ => ih p hp) h.rest]
  case best ps policy ih =>
    rw [Memory.winner_eq h.slot_eq]
    cases m'.winner (s.rename f) with
    | none => rfl
    | some i =>
      dsimp only
      rw [fittedAt_rename (fun p hp _ => ih p hp) h.parts]
  case bagging t settings ih =>
    have hall : ∀ rs, m.Renamed f (Site.idsOf rs) m' →
        (rs.all fun r => isFitted m t r) =
          (rs.map (Site.rename f)).all fun r => isFitted m' t r := by
      intro rs hrs
      induction rs with
      | nil => rfl
      | cons r rs ihs =>
        simp only [List.map_cons, List.all_cons]
        rw [ih hrs.cons.1, ihs hrs.cons.2]
    rw [hall _ h.rest]

/-! The text of a tree. -/

theorem texts_rename
    (ih : ∀ p ∈ ps, ∀ s, m.Renamed f s.ids m' → text m p s = text m' p (s.rename f))
    (h : m.Renamed f (Site.idsOf ss) m') :
    texts m ps ss = texts m' ps (ss.map (Site.rename f)) := by
  induction ps generalizing ss with
  | nil => simp only [texts]
  | cons p ps ihs =>
    cases ss with
    | nil => simp only [texts, List.map_nil]
    | cons s ss =>
      simp only [texts, List.map_cons]
      rw [ih p (by simp) s h.cons.1, ihs (fun q hq => ih q (by simp [hq])) h.cons.2]

theorem text_rename (h : m.Renamed f s.ids m') : text m p s = text m' p (s.rename f) := by
  induction p using Plan.induction generalizing s
  all_goals simp only [text, Site.parts_rename, Site.rest_rename]
  case transformer t | learner l | element e =>
    unfold Memory.text
    rw [h.head.1]
  case sequential ps ih | parallel ps ih | vote ps ih | best ps policy ih =>
    rw [texts_rename (fun p hp _ => ih p hp) h.parts]
  case stack t ps settings iht ih => rw [texts_rename (fun p hp _ => ih p hp) h.rest]
  case bagging t settings ih =>
    have hmembers : ∀ rs, m.Renamed f (Site.idsOf rs) m' →
        (rs.mapM fun r => text m t r) = (rs.map (Site.rename f)).mapM fun r => text m' t r := by
      intro rs hrs
      induction rs with
      | nil => rfl
      | cons r rs ihs =>
        simp only [List.map_cons, List.mapM_cons]
        rw [ih hrs.cons.1, ihs hrs.cons.2]
    rw [hmembers _ h.rest]

/-! What a tree answers. -/

/-- One plan answers alike under all identities. -/
def Unnamed (f : Nat → Nat) (m m' : Memory) (p : Plan) : Prop :=
  ∀ s, m.Renamed f s.ids m' → ∀ X, transform m p s X = transform m' p (s.rename f) X

theorem Unnamed.labels_eq (ih : Unnamed f m m' p) (h : m.Renamed f s.ids m') (X : Frame) :
    (m.labels p s X fun _ => transform m p s X) =
      m'.labels p (s.rename f) X fun _ => transform m' p (s.rename f) X := by
  cases p <;> unfold Memory.labels
  case learner l =>
    refine h.head.guarded_eq (isFitted_rename h) ?_ X
    exact Memory.predictions_eq h.slot_eq X
  all_goals simp only [ih s h, h.head.singleColumn_eq]

theorem chain_rename (ih : ∀ p ∈ ps, Unnamed f m m' p) (h : m.Renamed f (Site.idsOf ss) m')
    (X : Frame) : chain m ps ss X = chain m' ps (ss.map (Site.rename f)) X := by
  induction ps generalizing ss X with
  | nil => simp only [chain]
  | cons p ps ihs =>
    cases ss with
    | nil => simp only [chain, List.map_nil]
    | cons s ss =>
      have htail := ihs (fun q hq => ih q (by simp [hq])) h.cons.2
      simp only [chain, List.map_cons, ih p (by simp) s h.cons.1, htail]

theorem outputs_rename (ih : ∀ p ∈ ps, Unnamed f m m' p) (h : m.Renamed f (Site.idsOf ss) m')
    (X : Frame) : outputs m ps ss X = outputs m' ps (ss.map (Site.rename f)) X := by
  induction ps generalizing ss with
  | nil => simp only [outputs]
  | cons p ps ihs =>
    cases ss with
    | nil => simp only [outputs, List.map_nil]
    | cons s ss =>
      have htail := ihs (fun q hq => ih q (by simp [hq])) h.cons.2
      simp only [outputs, List.map_cons, ih p (by simp) s h.cons.1, htail]

theorem labelsOfAll_rename (ih : ∀ p ∈ ps, Unnamed f m m' p)
    (h : m.Renamed f (Site.idsOf ss) m') (X : Frame) :
    labelsOfAll m ps ss X = labelsOfAll m' ps (ss.map (Site.rename f)) X := by
  induction ps generalizing ss with
  | nil => simp only [labelsOfAll]
  | cons p ps ihs =>
    cases ss with
    | nil => simp only [labelsOfAll, List.map_nil]
    | cons s ss =>
      have htail := ihs (fun q hq => ih q (by simp [hq])) h.cons.2
      simp only [labelsOfAll, List.map_cons, htail]
      rw [(ih p (by simp)).labels_eq h.cons.1 X]

theorem labelsAt_rename {i : Nat} (ih : ∀ p ∈ ps, Unnamed f m m' p)
    (h : m.Renamed f (Site.idsOf ss) m') (X : Frame) :
    labelsAt m ps ss i X = labelsAt m' ps (ss.map (Site.rename f)) i X := by
  induction ps generalizing ss i with
  | nil => simp only [labelsAt]
  | cons p ps ihs =>
    cases ss with
    | nil => simp only [labelsAt, List.map_nil]
    | cons s ss =>
      cases i with
      | zero =>
        simp only [labelsAt, List.map_cons]
        exact (ih p (by simp)).labels_eq h.cons.1 X
      | succ i =>
        simp only [labelsAt, List.map_cons]
        exact ihs (fun q hq => ih q (by simp [hq])) h.cons.2

theorem mapM_labels_rename (ih : Unnamed f m m' t) (h : m.Renamed f (Site.idsOf ss) m')
    (X : Frame) :
    (ss.mapM fun r => m.labels t r X fun _ => transform m t r X) =
      (ss.map (Site.rename f)).mapM fun r => m'.labels t r X fun _ => transform m' t r X := by
  unfold List.mapM
  generalize [] = found
  induction ss generalizing found with
  | nil => rfl
  | cons r ss ihs =>
    simp only [List.map_cons, List.mapM.loop, ihs h.cons.2]
    rw [ih.labels_eq h.cons.1 X]

theorem unnamed (f : Nat → Nat) (m m' : Memory) (p : Plan) : Unnamed f m m' p := by
  induction p using Plan.induction
  all_goals
    intro s h X
    have hhead := h.head
    have hslot := h.slot_eq
    simp only [transform, Site.parts_rename, Site.first_rename, Site.rest_rename]
    refine hhead.guarded_eq (isFitted_rename h) ?_ X
  case transformer t => exact Memory.applyFitted_eq hslot X
  case learner l => exact Memory.answer_eq hslot l X
  case element e => rw [hhead.name_eq]
  case sequential ps ih => exact chain_rename ih h.parts X
  case parallel ps ih =>
    rw [outputs_rename ih h.parts X, h.parts.labelsOf_eq]
    simp only [hhead.concatenate_eq]
  case vote ps ih =>
    rw [labelsOfAll_rename ih h.parts X, h.parts.labelsOf_eq]
    simp only [hhead.output_eq]
  case stack t ps settings iht ih =>
    rw [labelsOfAll_rename ih h.rest X, h.rest.labelsOf_eq,
      Stacking.stored_eq (congrArg Slot.learned hslot)]
    simp only [iht.labels_eq h.first, hhead.output_eq]
  case best ps policy ih =>
    rw [Memory.winner_eq hslot, labelsAt_rename ih h.parts X]
    simp only [hhead.output_eq]
  case bagging t settings ih =>
    rw [mapM_labels_rename ih h.rest X, h.rest.labelsOf_eq]
    simp only [hhead.output_eq]

theorem transform_rename (h : m.Renamed f s.ids m') (X : Frame) :
    transform m p s X = transform m' p (s.rename f) X :=
  unnamed f m m' p s h X

theorem labels_rename (h : m.Renamed f s.ids m') (X : Frame) :
    (m.labels p s X fun _ => transform m p s X) =
      m'.labels p (s.rename f) X fun _ => transform m' p (s.rename f) X :=
  (unnamed f m m' p).labels_eq h X

end Plan

/-! Copies. Both trees are copied from some place on, and what is new in one memory is what is new
in the other, that much further. -/

namespace Memory

def shift (a b id : Nat) : Nat := id + b - a

/-- From `a` on one memory holds what the other holds from `b` on. -/
structure Shifted (a b : Nat) (m m' : Memory) : Prop where
  le : a ≤ m.next
  next_eq : m.next + b = m'.next + a
  slot_eq : ∀ id, a ≤ id → id < m.next → m.slot id = m'.slot (shift a b id)

namespace Shifted

variable {a b : Nat} {m m' : Memory}

theorem start (m m' : Memory) : Shifted m.next m'.next m m' :=
  ⟨Nat.le_refl _, Nat.add_comm _ _, fun _ h h' => absurd h' (Nat.not_lt.2 h)⟩

theorem shift_next (h : Shifted a b m m') : shift a b m.next = m'.next := by
  have hnext := h.next_eq
  unfold shift
  omega

theorem alloc (h : Shifted a b m m') (s : Slot) : Shifted a b (m.alloc s) (m'.alloc s) where
  le := by
    rw [next_alloc]
    exact Nat.le_succ_of_le h.le
  next_eq := by
    have hnext := h.next_eq
    rw [next_alloc, next_alloc]
    omega
  slot_eq id hid hlt := by
    rw [next_alloc] at hlt
    rcases Nat.lt_succ_iff_lt_or_eq.1 hlt with hlt | rfl
    · have hnext := h.next_eq
      have hlt' : shift a b id < m'.next := by
        unfold shift
        omega
      rw [slot_alloc_of_lt hlt, slot_alloc_of_lt hlt']
      exact h.slot_eq id hid hlt
    · rw [h.shift_next, slot_alloc_next, slot_alloc_next]

theorem renamed (h : Shifted a b m m') {ids : List Nat} (hids : ∀ id ∈ ids, a ≤ id ∧ id < m.next) :
    Renamed (shift a b) ids m m' := fun id hid => h.slot_eq id (hids id hid).1 (hids id hid).2

theorem lt_next (h : Shifted a b m m') {id : Nat} (hid : id < m.next) (ha : a ≤ id) :
    shift a b id < m'.next := by
  have hnext := h.next_eq
  unfold shift
  omega

end Shifted

/-- Two memories in which a tree can be copied side by side. -/
structure Copying (f : Nat → Nat) (ids : List Nat) (a b : Nat) (m m' : Memory) : Prop where
  renamed : m.Renamed f ids m'
  taken : ∀ id ∈ ids, id < m.next
  taken' : ∀ id ∈ ids, f id < m'.next
  shifted : Shifted a b m m'

/-- What comes of it: new identities, which are the same but for the shift. -/
structure Copied (a b : Nat) (m m' : Memory) (cs cs' : List Site) (v v' : Memory) : Prop where
  sites : cs' = cs.map (Site.rename (shift a b))
  extend : Extends [] m v
  extend' : Extends [] m' v'
  shifted : Shifted a b v v'
  new : ∀ id ∈ Site.idsOf cs, m.next ≤ id
  taken : ∀ id ∈ Site.idsOf cs, id < v.next

variable {f : Nat → Nat} {ids ids' : List Nat} {a b : Nat} {m m' v v' u u' : Memory}
  {cs cs' ds ds' : List Site}

theorem Copying.mono (h : Copying f ids a b m m') (hids : ∀ id ∈ ids', id ∈ ids) :
    Copying f ids' a b m m' :=
  ⟨h.renamed.mono hids, fun id hid => h.taken id (hids id hid),
    fun id hid => h.taken' id (hids id hid), h.shifted⟩

theorem Copying.after (h : Copying f ids a b m m') (hc : Copied a b m m' cs cs' v v') :
    Copying f ids a b v v' where
  renamed id hid := by
    rw [hc.extend.slot_eq id (h.taken id hid) (by simp),
      hc.extend'.slot_eq (f id) (h.taken' id hid) (by simp)]
    exact h.renamed id hid
  taken id hid := Nat.lt_of_lt_of_le (h.taken id hid) hc.extend.next_le
  taken' id hid := Nat.lt_of_lt_of_le (h.taken' id hid) hc.extend'.next_le
  shifted := hc.shifted

namespace Copied

theorem nil (h : Shifted a b m m') : Copied a b m m' [] [] m m' := by
  constructor <;> simp [h, Extends.refl, Site.idsOf]

theorem append (h : Copied a b m m' cs cs' v v') (h' : Copied a b v v' ds ds' u u') :
    Copied a b m m' (cs ++ ds) (cs' ++ ds') u u' := by
  have hmem : ∀ id ∈ Site.idsOf (cs ++ ds), id ∈ Site.idsOf cs ∨ id ∈ Site.idsOf ds := by
    intro id hid
    obtain ⟨r, hr, hid⟩ := Site.mem_idsOf.1 hid
    exact (List.mem_append.1 hr).imp (fun hr => Site.mem_idsOf.2 ⟨r, hr, hid⟩)
      fun hr => Site.mem_idsOf.2 ⟨r, hr, hid⟩
  refine ⟨by rw [h.sites, h'.sites, List.map_append], h.extend.trans h'.extend (by simp),
    h.extend'.trans h'.extend' (by simp), h'.shifted, fun id hid => ?_, fun id hid => ?_⟩
  · rcases hmem id hid with hid | hid
    · exact h.new id hid
    · exact Nat.le_trans h.extend.next_le (h'.new id hid)
  · rcases hmem id hid with hid | hid
    · exact Nat.lt_of_lt_of_le (h.taken id hid) h'.extend.next_le
    · exact h'.taken id hid

theorem rotate {d d' : Site} (h : Copied a b m m' (cs ++ [d]) (cs' ++ [d']) v v') :
    Copied a b m m' (d :: cs) (d' :: cs') v v' := by
  have hmem : ∀ id ∈ Site.idsOf (d :: cs), id ∈ Site.idsOf (cs ++ [d]) := by
    intro id hid
    obtain ⟨r, hr, hid⟩ := Site.mem_idsOf.1 hid
    refine Site.mem_idsOf.2 ⟨r, ?_, hid⟩
    simpa [or_comm] using hr
  have hsites := h.sites
  rw [List.map_append, List.map_singleton] at hsites
  obtain ⟨hcs, hd⟩ := List.append_inj' hsites rfl
  rw [List.singleton_inj] at hd
  exact ⟨by rw [hcs, hd, List.map_cons], h.extend, h.extend', h.shifted,
    fun id hid => h.new id (hmem id hid), fun id hid => h.taken id (hmem id hid)⟩

/-- A node over parts that were copied. -/
theorem place (h : Copied a b m m' cs cs' v v') (name : Label) :
    Copied a b m m' [(v.place name cs).1] [(v'.place name cs').1] (v.place name cs).2
      (v'.place name cs').2 := by
  have hids : Site.idsOf [(v.place name cs).1] = v.next :: Site.idsOf cs := by
    simp only [Memory.place, Site.idsOf, Site.ids, List.append_nil]
  refine ⟨?_, h.extend.trans (v.extends_place name cs) (by simp),
    h.extend'.trans (v'.extends_place name cs') (by simp), h.shifted.alloc _, fun id hid => ?_,
    fun id hid => ?_⟩
  · simp only [Memory.place, List.map_singleton, Site.rename, Site.renameAll_eq_map, h.sites,
      h.shifted.shift_next]
  · rw [hids] at hid
    rcases List.mem_cons.1 hid with rfl | hid
    · exact h.extend.next_le
    · exact h.new id hid
  · rw [hids] at hid
    change id < (v.alloc _).next
    rw [next_alloc]
    rcases List.mem_cons.1 hid with rfl | hid
    · exact Nat.lt_succ_self _
    · exact Nat.lt_succ_of_lt (h.taken id hid)

/-- What was copied can be copied again. -/
theorem copying (h : Copied a b m m' cs cs' v v') (hle : a ≤ m.next) :
    Copying (shift a b) (Site.idsOf cs) a b v v' := by
  have hge : ∀ id ∈ Site.idsOf cs, a ≤ id := fun id hid => Nat.le_trans hle (h.new id hid)
  exact ⟨h.shifted.renamed fun id hid => ⟨hge id hid, h.taken id hid⟩, h.taken,
    fun id hid => h.shifted.lt_next (h.taken id hid) (hge id hid), h.shifted⟩

end Copied
end Memory

end ColumnFlow
