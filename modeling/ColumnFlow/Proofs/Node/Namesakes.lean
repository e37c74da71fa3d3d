import ColumnFlow.Proofs.Node.Renaming

/-!
# Namesakes

A copy is made of the plan and the names of a tree, and of nothing else that is held for it. So
copies of namesakes, which have one plan and the same names in the same positions, are one tree
under shifted identities, whatever the two trees have learned. A tree under other identities is a
namesake, and so is one whose positions share an identity where those of the other do not.
-/
namespace ColumnFlow

namespace Plan

mutual

/-- Two trees of one plan with the same names in the same positions. Of a bagging ensemble only the
template counts, since its members are copied from it. -/
def Namesakes (m m' : Memory) : Plan → Site → Site → Prop
  | .transformer _, s, s' | .learner _, s, s' | .element _, s, s' => m.label s = m'.label s'
  | .sequential ps, s, s' | .parallel ps, s, s' | .vote ps, s, s' | .best ps _, s, s' =>
    m.label s = m'.label s' ∧ NamesakesAll m m' ps s.parts s'.parts
  | .stack t ps _, s, s' =>
    m.label s = m'.label s' ∧ Namesakes m m' t s.first s'.first ∧
      NamesakesAll m m' ps s.rest s'.rest
  | .bagging t _, s, s' => m.label s = m'.label s' ∧ Namesakes m m' t s.first s'.first

def NamesakesAll (m m' : Memory) : List Plan → List Site → List Site → Prop
  | [], _, _ => True
  | _ :: _, [], [] => True
  | p :: ps, s :: ss, s' :: ss' => Namesakes m m' p s s' ∧ NamesakesAll m m' ps ss ss'
  | _ :: _, _, _ => False

end

variable {f : Nat → Nat} {a b : Nat} {m m' v v' : Memory} {p t : Plan} {ps : List Plan}
  {s s' : Site} {ss ss' : List Site} {S S' : List Nat}

theorem Namesakes.label_eq (h : Namesakes m m' p s s') : m.label s = m'.label s' := by
  cases p <;> simp only [Namesakes] at h
  case transformer | learner | element => exact h
  all_goals exact h.1

/-! Which trees are namesakes. -/

theorem namesakesAll_rename
    (ih : ∀ p ∈ ps, ∀ s, (∀ i ∈ s.ids, (m.slot i).name = (m'.slot (f i)).name) →
      Namesakes m m' p s (s.rename f))
    (h : ∀ i ∈ Site.idsOf ss, (m.slot i).name = (m'.slot (f i)).name) :
    NamesakesAll m m' ps ss (ss.map (Site.rename f)) := by
  induction ps generalizing ss with
  | nil => simp only [NamesakesAll]
  | cons p ps ihs =>
    cases ss with
    | nil => simp only [NamesakesAll, List.map_nil]
    | cons s ss =>
      simp only [NamesakesAll, List.map_cons]
      exact ⟨ih p (by simp) s fun i hi => h i (List.mem_append_left _ hi),
        ihs (fun q hq => ih q (by simp [hq])) fun i hi => h i (List.mem_append_right _ hi)⟩

theorem namesakes_rename (p : Plan) (h : ∀ i ∈ s.ids, (m.slot i).name = (m'.slot (f i)).name) :
    Namesakes m m' p s (s.rename f) := by
  induction p using Plan.induction generalizing s
  all_goals
    have hname : m.label s = m'.label (s.rename f) := by
      unfold Memory.label
      rw [Site.id_rename]
      exact h s.id s.id_mem_ids
    simp only [Namesakes, Site.parts_rename, Site.first_rename, Site.rest_rename]
  case transformer | learner | element => exact hname
  case sequential ps ih | parallel ps ih | vote ps ih | best ps policy ih =>
    exact ⟨hname, namesakesAll_rename (fun p hp _ => ih p hp) fun i hi =>
      h i (Site.mem_ids_of_mem_idsOf_parts hi)⟩
  case stack t ps settings iht ih =>
    exact ⟨hname, iht fun i hi => h i (Site.mem_ids_of_mem_first hi),
      namesakesAll_rename (fun p hp _ => ih p hp) fun i hi =>
        h i (Site.mem_ids_of_mem_idsOf_rest hi)⟩
  case bagging t settings ih =>
    exact ⟨hname, ih fun i hi => h i (Site.mem_ids_of_mem_first hi)⟩

/-- A tree in use is a namesake of itself, whatever happens to it. -/
theorem namesakes_extend (p : Plan) (h : Memory.Extends S m m') (hs : ∀ i ∈ s.ids, i < m.next) :
    Namesakes m m' p s s := by
  have hrenamed := namesakes_rename (f := id) p fun i hi => (h.name_eq i (hs i hi)).symm
  rwa [Site.rename_eq_self (f := id) fun _ => rfl] at hrenamed

theorem namesakesAll_congr
    (ih : ∀ p ∈ ps, ∀ s s', Namesakes m m' p s s' →
      (∀ i ∈ s.ids, (v.slot i).name = (m.slot i).name) →
      (∀ i ∈ s'.ids, (v'.slot i).name = (m'.slot i).name) → Namesakes v v' p s s')
    (h : NamesakesAll m m' ps ss ss')
    (hv : ∀ i ∈ Site.idsOf ss, (v.slot i).name = (m.slot i).name)
    (hv' : ∀ i ∈ Site.idsOf ss', (v'.slot i).name = (m'.slot i).name) :
    NamesakesAll v v' ps ss ss' := by
  induction ps generalizing ss ss' with
  | nil => simp only [NamesakesAll]
  | cons p ps ihs =>
    rcases ss with _ | ⟨s, ss⟩ <;> rcases ss' with _ | ⟨s', ss'⟩ <;>
      simp only [NamesakesAll] at h ⊢
    exact ⟨ih p (by simp) s s' h.1 (fun i hi => hv i (List.mem_append_left _ hi))
        fun i hi => hv' i (List.mem_append_left _ hi),
      ihs (fun q hq => ih q (by simp [hq])) h.2 (fun i hi => hv i (List.mem_append_right _ hi))
        fun i hi => hv' i (List.mem_append_right _ hi)⟩

theorem Namesakes.congr (h : Namesakes m m' p s s')
    (hv : ∀ i ∈ s.ids, (v.slot i).name = (m.slot i).name)
    (hv' : ∀ i ∈ s'.ids, (v'.slot i).name = (m'.slot i).name) : Namesakes v v' p s s' := by
  induction p using Plan.induction generalizing s s'
  all_goals
    have hname : v.label s = v'.label s' := by
      have hold := h.label_eq
      unfold Memory.label at hold ⊢
      rw [hv _ s.id_mem_ids, hv' _ s'.id_mem_ids, hold]
    simp only [Namesakes] at h ⊢
  case transformer | learner | element => exact hname
  case sequential ps ih | parallel ps ih | vote ps ih | best ps policy ih =>
    exact ⟨hname, namesakesAll_congr (fun p hp _ _ => ih p hp) h.2
      (fun i hi => hv i (Site.mem_ids_of_mem_idsOf_parts hi))
      fun i hi => hv' i (Site.mem_ids_of_mem_idsOf_parts hi)⟩
  case stack t ps settings iht ih =>
    exact ⟨hname, iht h.2.1 (fun i hi => hv i (Site.mem_ids_of_mem_first hi))
        fun i hi => hv' i (Site.mem_ids_of_mem_first hi),
      namesakesAll_congr (fun p hp _ _ => ih p hp) h.2.2
        (fun i hi => hv i (Site.mem_ids_of_mem_idsOf_rest hi))
        fun i hi => hv' i (Site.mem_ids_of_mem_idsOf_rest hi)⟩
  case bagging t settings ih =>
    exact ⟨hname, ih h.2 (fun i hi => hv i (Site.mem_ids_of_mem_first hi))
      fun i hi => hv' i (Site.mem_ids_of_mem_first hi)⟩

end Plan

/-! Copies of namesakes. -/

namespace Memory

/-- Two memories in which trees that are in use can be copied side by side. -/
structure Beside (a b : Nat) (ids ids' : List Nat) (m m' : Memory) : Prop where
  taken : ∀ i ∈ ids, i < m.next
  taken' : ∀ i ∈ ids', i < m'.next
  shifted : Shifted a b m m'

variable {f : Nat → Nat} {a b : Nat} {ids ids' others others' : List Nat} {m m' v v' : Memory}
  {cs cs' : List Site}

theorem Beside.mono (h : Beside a b ids ids' m m') (hids : others ⊆ ids) (hids' : others' ⊆ ids') :
    Beside a b others others' m m' :=
  ⟨fun i hi => h.taken i (hids hi), fun i hi => h.taken' i (hids' hi), h.shifted⟩

theorem Beside.after (h : Beside a b ids ids' m m') (hc : Copied a b m m' cs cs' v v') :
    Beside a b ids ids' v v' where
  taken i hi := Nat.lt_of_lt_of_le (h.taken i hi) hc.extend.next_le
  taken' i hi := Nat.lt_of_lt_of_le (h.taken' i hi) hc.extend'.next_le
  shifted := hc.shifted

theorem Copying.beside {s : Site} (h : Copying f s.ids a b m m') :
    Beside a b s.ids (s.rename f).ids m m' := by
  refine ⟨h.taken, fun i hi => ?_, h.shifted⟩
  rw [Site.ids_rename] at hi
  obtain ⟨j, hj, rfl⟩ := List.mem_map.1 hi
  exact h.taken' j hj

end Memory

namespace Plan

variable {f : Nat → Nat} {a b : Nat} {m m' v v' : Memory} {p t : Plan} {ps : List Plan}
  {s s' : Site} {ss ss' cs cs' : List Site}

theorem Namesakes.after (h : Namesakes m m' p s s') (hb : Memory.Beside a b s.ids s'.ids m m')
    (hc : Memory.Copied a b m m' cs cs' v v') : Namesakes v v' p s s' :=
  h.congr (fun i hi => hc.extend.name_eq i (hb.taken i hi))
    fun i hi => hc.extend'.name_eq i (hb.taken' i hi)

theorem NamesakesAll.after (h : NamesakesAll m m' ps ss ss')
    (hb : Memory.Beside a b (Site.idsOf ss) (Site.idsOf ss') m m')
    (hc : Memory.Copied a b m m' cs cs' v v') : NamesakesAll v v' ps ss ss' :=
  namesakesAll_congr (fun _ _ _ _ => Namesakes.congr) h
    (fun i hi => hc.extend.name_eq i (hb.taken i hi))
    fun i hi => hc.extend'.name_eq i (hb.taken' i hi)

/-- One plan is copied alike from namesakes. -/
def CopiedByName (a b : Nat) (p : Plan) : Prop :=
  ∀ s s' m m', Namesakes m m' p s s' → Memory.Beside a b s.ids s'.ids m m' →
    Memory.Copied a b m m' [(p.copy s m).1] [(p.copy s' m').1] (p.copy s m).2 (p.copy s' m').2

theorem copyAll_byName (ih : ∀ p ∈ ps, CopiedByName a b p) (h : NamesakesAll m m' ps ss ss')
    (hb : Memory.Beside a b (Site.idsOf ss) (Site.idsOf ss') m m') :
    Memory.Copied a b m m' (copyAll ps ss m).1 (copyAll ps ss' m').1 (copyAll ps ss m).2
      (copyAll ps ss' m').2 := by
  induction ps generalizing ss ss' m m' with
  | nil =>
    simp only [copyAll]
    exact .nil hb.shifted
  | cons p ps ihs =>
    rcases ss with _ | ⟨s, ss⟩ <;> rcases ss' with _ | ⟨s', ss'⟩ <;>
      simp only [NamesakesAll] at h
    · simp only [copyAll]
      exact .nil hb.shifted
    · have hhead := hb.mono (List.subset_append_left s.ids _) (List.subset_append_left s'.ids _)
      have htail := hb.mono (List.subset_append_right s.ids _) (List.subset_append_right s'.ids _)
      have hfirst := ih p (by simp) s s' m m' h.1 hhead
      simp only [copyAll]
      exact hfirst.append (ihs (fun q hq => ih q (by simp [hq])) (h.2.after htail hfirst)
        (htail.after hfirst))

theorem times_byName {n : Nat} (ih : CopiedByName a b p) (h : Namesakes m m' p s s')
    (hb : Memory.Beside a b s.ids s'.ids m m') :
    Memory.Copied a b m m' (Memory.times (fun m => p.copy s m) n m).1
      (Memory.times (fun m => p.copy s' m) n m').1
      (Memory.times (fun m => p.copy s m) n m).2
      (Memory.times (fun m => p.copy s' m) n m').2 := by
  induction n generalizing m m' with
  | zero => exact .nil hb.shifted
  | succ n ihn =>
    have hfirst := ih s s' m m' h hb
    exact hfirst.append (ihn (h.after hb hfirst) (hb.after hfirst))

/-- What was copied side by side are namesakes, and can be copied again. -/
theorem namesakes_copied {c c' : Site} (p : Plan) (h : Memory.Copied a b m m' [c] [c'] v v')
    (hle : a ≤ m.next) : Namesakes v v' p c c' ∧ Memory.Beside a b c.ids c'.ids v v' := by
  have hids : Site.idsOf [c] = c.ids := by
    simp only [Site.idsOf, List.append_nil]
  have hagain := h.copying hle
  rw [hids] at hagain
  rw [List.singleton_inj.1 h.sites]
  exact ⟨namesakes_rename p fun i hi => congrArg Slot.name (hagain.renamed i hi), hagain.beside⟩

theorem copy_byName (a b : Nat) (p : Plan) : CopiedByName a b p := by
  induction p using Plan.induction
  all_goals
    intro s s' m m' h hb
    have hname : (m'.slot s'.id).name = (m.slot s.id).name := h.label_eq.symm
    simp only [Namesakes] at h
    simp only [copy, hname]
  case transformer | learner | element =>
    exact (Memory.Copied.nil hb.shifted).place _
  case sequential ps ih | parallel ps ih | vote ps ih | best ps policy ih =>
    have hparts := copyAll_byName ih h.2 (hb.mono (fun _ => Site.mem_ids_of_mem_idsOf_parts)
      fun _ => Site.mem_ids_of_mem_idsOf_parts)
    exact hparts.place _
  case stack t ps settings iht ih =>
    have hrest := hb.mono (fun _ => Site.mem_ids_of_mem_idsOf_rest)
      fun _ => Site.mem_ids_of_mem_idsOf_rest
    have hfirst := hb.mono (fun _ => Site.mem_ids_of_mem_first) fun _ => Site.mem_ids_of_mem_first
    have hparts := copyAll_byName ih h.2.2 hrest
    have htop := iht s.first s'.first _ _ (h.2.1.after hfirst hparts) (hfirst.after hparts)
    exact (hparts.append htop).rotate.place _
  case bagging t settings ih =>
    have hfirst := hb.mono (fun _ => Site.mem_ids_of_mem_first) fun _ => Site.mem_ids_of_mem_first
    have htemplate := ih s.first s'.first m m' h.2 hfirst
    -- The members are copied from the copy of the template and not from the template.
    obtain ⟨hnamesakes, hbeside⟩ := namesakes_copied t htemplate hb.shifted.le
    exact (htemplate.append (times_byName (n := settings.count.toNat) ih hnamesakes
      hbeside)).place _

/-- One plan is copied alike under all identities. -/
def CopiedAlike (a b : Nat) (p : Plan) : Prop :=
  ∀ f s m m', Memory.Copying f s.ids a b m m' →
    Memory.Copied a b m m' [(p.copy s m).1] [(p.copy (s.rename f) m').1] (p.copy s m).2
      (p.copy (s.rename f) m').2

/-- Copies of a tree and of the same tree under other identities. -/
theorem copy_rename (a b : Nat) (p : Plan) : CopiedAlike a b p := fun f s m m' h =>
  copy_byName a b p s (s.rename f) m m'
    (namesakes_rename p fun i hi => congrArg Slot.name (h.renamed i hi)) h.beside

end Plan
end ColumnFlow
