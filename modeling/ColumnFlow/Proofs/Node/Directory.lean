import ColumnFlow.Proofs.Node.Outline
import ColumnFlow.Proofs.Node.Teaching

/-!
# Directories

A directory says which plan stands behind every identity. When nodes are made it grows, and what it
says of older identities stays. A node learns only what its plan can learn, and trees that share
nodes agree on their plans; so a fit of one tree leaves nothing in a shared node that another could
not use.
-/
namespace ColumnFlow

/-- What a node may have learned: transformers learn no models, and learners nothing but models. -/
def Plan.Learns : Plan → Learned → Prop
  | .transformer _, .model _ | .learner _, .fitted _ => False
  | _, _ => True

theorem Plan.learns_nothing (p : Plan) : p.Learns .nothing := by
  cases p <;> trivial

namespace Node

/-- The trees that a node holds on to: its parts, and the template of a bagging ensemble. -/
def inside (n : Node) : List Node :=
  match n.plan with
  | .bagging t _ => ⟨t, n.site.first⟩ :: n.children
  | _ => n.parts

variable {n q : Node}

theorem mem_inside_of_mem_parts (hq : q ∈ n.parts) : q ∈ n.inside := by
  obtain ⟨p, s⟩ := n
  cases p with
  | bagging t settings => exact List.mem_cons_of_mem _ hq
  | _ => exact hq

theorem mem_parts_of_mem_children (hq : q ∈ n.children) : q ∈ n.parts := by
  obtain ⟨p, s⟩ := n
  cases p with
  | stack t ps settings => exact List.mem_cons_of_mem _ hq
  | _ => exact hq

theorem ids_of_mem_inside (hq : q ∈ n.inside) {i : Nat} (hi : i ∈ q.site.ids) :
    i ∈ n.site.ids := by
  obtain ⟨p, s⟩ := n
  cases p with
  | bagging t settings =>
    rcases List.mem_cons.1 hq with rfl | hq
    · exact Site.mem_ids_of_mem_first hi
    · exact ids_of_mem_parts (n := ⟨.bagging t settings, s⟩) hq hi
  | _ => exact ids_of_mem_parts hq hi

end Node

def Directory := Nat → Plan

namespace Directory

variable {d d' d'' : Directory} {m m' m'' : Memory} {n q : Node} {p : Plan} {ps : List Plan}
  {s : Site} {ss : List Site}

inductive Lists (d : Directory) : Node → Prop
  | node {n : Node} : d n.site.id = n.plan → (∀ q ∈ n.inside, Lists d q) → Lists d n

def Fits (d : Directory) (m : Memory) : Prop :=
  ∀ i, i < m.next → (d i).Learns (m.slot i).learned

/-- A tree of nodes that are in the directory and in use. -/
structure Houses (d : Directory) (m : Memory) (n : Node) : Prop where
  listed : d.Lists n
  taken : ∀ i ∈ n.site.ids, i < m.next

/-- What becomes of a directory and a memory when nodes are made. -/
structure Grows (d : Directory) (m : Memory) (d' : Directory) (m' : Memory) : Prop where
  next_le : m.next ≤ m'.next
  same : ∀ i, i < m.next → d' i = d i
  fits : d'.Fits m'

theorem Grows.refl (h : d.Fits m) : d.Grows m d m := ⟨Nat.le_refl _, fun _ _ => rfl, h⟩

theorem Grows.trans (h : d.Grows m d' m') (h' : d'.Grows m' d'' m'') : d.Grows m d'' m'' where
  next_le := Nat.le_trans h.next_le h'.next_le
  same i hi := (h'.same i (Nat.lt_of_lt_of_le hi h.next_le)).trans (h.same i hi)
  fits := h'.fits

theorem Houses.inside (h : d.Houses m n) (hq : q ∈ n.inside) : d.Houses m q := by
  refine ⟨?_, fun i hi => h.taken i (Node.ids_of_mem_inside hq hi)⟩
  cases h.listed with
  | node _ hinside => exact hinside q hq

theorem Lists.grow (h : d.Lists n) (htaken : ∀ i ∈ n.site.ids, i < m.next)
    (hd : d.Grows m d' m') : d'.Lists n := by
  induction h with
  | @node n hself _ ih =>
    refine .node ((hd.same _ (htaken _ n.site.id_mem_ids)).trans hself) fun q hq => ?_
    exact ih q hq fun i hi => htaken i (Node.ids_of_mem_inside hq hi)

theorem Houses.grow (h : d.Houses m n) (hd : d.Grows m d' m') : d'.Houses m' n :=
  ⟨h.listed.grow h.taken hd, fun i hi => Nat.lt_of_lt_of_le (h.taken i hi) hd.next_le⟩

/-! New nodes. -/

def enter (d : Directory) (i : Nat) (p : Plan) : Directory := fun j => if j = i then p else d j

theorem Fits.place (h : d.Fits m) (p : Plan) (name : Label) (ss : List Site) :
    d.Grows m (d.enter m.next p) (m.place name ss).2 := by
  have hext := m.extends_place name ss
  refine ⟨hext.next_le, fun i hi => if_neg (Nat.ne_of_lt hi), fun i hi => ?_⟩
  change i < (m.alloc (.fresh name)).next at hi
  rw [Memory.next_alloc] at hi
  by_cases hnew : i = m.next
  · rw [hnew]
    change (d.enter m.next p m.next).Learns ((m.alloc (.fresh name)).slot m.next).learned
    rw [Memory.slot_alloc_next]
    exact Plan.learns_nothing _
  · have hlt : i < m.next := by omega
    rw [enter, if_neg hnew, hext.slot_eq i hlt List.not_mem_nil]
    exact h i hlt

theorem Fits.houses_place (h : d.Fits m) (p : Plan) (name : Label)
    (hids : ∀ i ∈ Site.idsOf ss, i < m.next)
    (hinside : ∀ q ∈ (Node.mk p (.mk m.next ss)).inside, d.Houses m q) :
    (d.enter m.next p).Houses (m.place name ss).2 ⟨p, (m.place name ss).1⟩ := by
  have hgrows := h.place p name ss
  refine ⟨.node (if_pos rfl) fun q hq => ((hinside q hq).grow hgrows).listed, fun i hi => ?_⟩
  change i ∈ (Site.mk m.next ss).ids at hi
  change i < (m.alloc (.fresh name)).next
  rw [Memory.next_alloc]
  rw [Site.ids, List.mem_cons] at hi
  rcases hi with rfl | hi
  · omega
  · have hlt := hids i hi
    omega

/-! Copies. -/

theorem taken_cons {b : Nat} (hs : ∀ i ∈ s.ids, i < b) (hss : ∀ i ∈ Site.idsOf ss, i < b) :
    ∀ i ∈ Site.idsOf (s :: ss), i < b := by
  intro i hi
  rw [Site.idsOf, List.mem_append] at hi
  exact hi.elim (hs i) (hss i)

theorem taken_copies (h : ∀ c ∈ ss, d.Houses m ⟨p, c⟩) : ∀ i ∈ Site.idsOf ss, i < m.next := by
  intro i hi
  obtain ⟨c, hc, hi⟩ := Site.mem_idsOf.1 hi
  exact (h c hc).taken i hi

def Copied (d : Directory) (m : Memory) (p : Plan) (c : Site) (m' : Memory) : Prop :=
  ∃ d', d.Grows m d' m' ∧ d'.Houses m' ⟨p, c⟩

theorem copyAll_houses
    (ih : ∀ p ∈ ps, ∀ (s : Site) (m : Memory) (d : Directory), d.Fits m →
      (∀ i ∈ s.ids, i < m.next) → d.Copied m p (p.copy s m).1 (p.copy s m).2)
    (hd : d.Fits m) (hss : ∀ i ∈ Site.idsOf ss, i < m.next) :
    ∃ d', d.Grows m d' (Plan.copyAll ps ss m).2 ∧
      (∀ i ∈ Site.idsOf (Plan.copyAll ps ss m).1, i < (Plan.copyAll ps ss m).2.next) ∧
      ∀ q ∈ Node.zipParts ps (Plan.copyAll ps ss m).1,
        d'.Houses (Plan.copyAll ps ss m).2 q := by
  induction ps generalizing ss m d with
  | nil =>
    simp only [Plan.copyAll]
    exact ⟨d, .refl hd, fun i hi => (List.not_mem_nil hi).elim,
      fun q hq => (List.not_mem_nil hq).elim⟩
  | cons p ps ihs =>
    cases ss with
    | nil =>
      simp only [Plan.copyAll]
      exact ⟨d, .refl hd, fun i hi => (List.not_mem_nil hi).elim,
        fun q hq => (List.not_mem_nil hq).elim⟩
    | cons s ss =>
      simp only [Site.idsOf, List.mem_append] at hss
      obtain ⟨d₁, hd₁, hfirst⟩ := ih p List.mem_cons_self s m d hd fun i hi => hss i (.inl hi)
      have hlater : ∀ i ∈ Site.idsOf ss, i < (p.copy s m).2.next := fun i hi =>
        Nat.lt_of_lt_of_le (hss i (.inr hi)) hd₁.next_le
      obtain ⟨d₂, hd₂, htaken, hrest⟩ :=
        ihs (fun q hq => ih q (List.mem_cons_of_mem _ hq)) hd₁.fits hlater
      simp only [Plan.copyAll]
      refine ⟨d₂, hd₁.trans hd₂, taken_cons (hfirst.grow hd₂).taken htaken, fun q hq => ?_⟩
      rcases List.mem_cons.1 hq with rfl | hq
      · exact hfirst.grow hd₂
      · exact hrest q hq

theorem times_houses {k : Nat}
    (ih : ∀ (m : Memory) (d : Directory), d.Fits m →
      (∀ i ∈ s.ids, i < m.next) → d.Copied m p (p.copy s m).1 (p.copy s m).2)
    (hd : d.Fits m) (hs : ∀ i ∈ s.ids, i < m.next) :
    ∃ d', d.Grows m d' (Memory.times (fun m => p.copy s m) k m).2 ∧
      ∀ c ∈ (Memory.times (fun m => p.copy s m) k m).1,
        d'.Houses (Memory.times (fun m => p.copy s m) k m).2 ⟨p, c⟩ := by
  induction k generalizing m d with
  | zero => exact ⟨d, .refl hd, fun c hc => nomatch hc⟩
  | succ k ihk =>
    obtain ⟨d₁, hd₁, hfirst⟩ := ih m d hd hs
    obtain ⟨d₂, hd₂, hrest⟩ := ihk hd₁.fits fun i hi => Nat.lt_of_lt_of_le (hs i hi) hd₁.next_le
    simp only [Memory.times]
    refine ⟨d₂, hd₁.trans hd₂, fun c hc => ?_⟩
    rcases List.mem_cons.1 hc with rfl | hc
    · exact hfirst.grow hd₂
    · exact hrest c hc

theorem copied_place {cs : List Site} {m₁ : Memory} (hd : d.Grows m d' m₁) (p : Plan)
    (name : Label) (hids : ∀ i ∈ Site.idsOf cs, i < m₁.next)
    (hinside : ∀ q ∈ (Node.mk p (.mk m₁.next cs)).inside, d'.Houses m₁ q) :
    d.Copied m p (m₁.place name cs).1 (m₁.place name cs).2 :=
  ⟨d'.enter m₁.next p, hd.trans (hd.fits.place p name cs),
    hd.fits.houses_place p name hids hinside⟩

theorem copy_houses (p : Plan) (s : Site) (m : Memory) (d : Directory) (hd : d.Fits m)
    (hs : ∀ i ∈ s.ids, i < m.next) : d.Copied m p (p.copy s m).1 (p.copy s m).2 := by
  -- as the copy is made: its parts come first, then the node over them
  induction p using Plan.induction generalizing s m d with
  | transformer | learner | element =>
    simp only [Plan.copy]
    exact copied_place (.refl hd) _ _ (fun i hi => (List.not_mem_nil hi).elim)
      fun q hq => (List.not_mem_nil hq).elim
  | sequential ps ih | parallel ps ih | vote ps ih | best ps policy ih =>
    have hold : ∀ i ∈ Site.idsOf s.parts, i < m.next := fun i hi =>
      hs i (Site.mem_ids_of_mem_idsOf_parts hi)
    obtain ⟨d', hd', htaken, hparts⟩ := copyAll_houses ih hd hold
    simp only [Plan.copy]
    exact copied_place hd' _ _ htaken hparts
  | stack t ps settings iht ih =>
    have hold : ∀ i ∈ Site.idsOf s.rest, i < m.next := fun i hi =>
      hs i (Site.mem_ids_of_mem_idsOf_rest hi)
    obtain ⟨d₁, hd₁, htaken, hparts⟩ := copyAll_houses ih hd hold
    obtain ⟨d₂, hd₂, htop⟩ := iht s.first _ d₁ hd₁.fits fun i hi =>
      Nat.lt_of_lt_of_le (hs i (Site.mem_ids_of_mem_first hi)) hd₁.next_le
    simp only [Plan.copy]
    have htaken : ∀ i ∈ Site.idsOf (Plan.copyAll ps s.rest m).1, i < _ := fun i hi =>
      Nat.lt_of_lt_of_le (htaken i hi) hd₂.next_le
    refine copied_place (hd₁.trans hd₂) _ _ (taken_cons htop.taken htaken) fun q hq => ?_
    rcases List.mem_cons.1 hq with rfl | hq
    · exact htop
    · exact (hparts q hq).grow hd₂
  | bagging t settings ih =>
    obtain ⟨d₁, hd₁, htemplate⟩ := ih s.first m d hd fun i hi =>
      hs i (Site.mem_ids_of_mem_first hi)
    obtain ⟨d₂, hd₂, hmembers⟩ := times_houses (k := settings.count.toNat) (ih _) hd₁.fits
      htemplate.taken
    simp only [Plan.copy]
    have htemplate := htemplate.grow hd₂
    refine copied_place (hd₁.trans hd₂) _ _ (taken_cons htemplate.taken (taken_copies hmembers))
      fun q hq => ?_
    rcases List.mem_cons.1 hq with rfl | hq
    · exact htemplate
    · obtain ⟨c, hc, rfl⟩ := List.mem_map.1 hq
      exact hmembers c hc

/-! Fits. -/

/-- Below a bound, what was learned is what the plans can learn. -/
structure FitsBelow (d : Directory) (b : Nat) (m : Memory) : Prop where
  room : b ≤ m.next
  fits : ∀ i, i < b → (d i).Learns (m.slot i).learned

variable {b : Nat} {env : Surroundings}

theorem FitsBelow.lasting (d : Directory) (b : Nat) : Memory.Lasting (d.FitsBelow b) := by
  intro m m' hm h
  refine ⟨Nat.le_trans h.room hm.next_le, fun i hi => ?_⟩
  rw [hm.slot_eq i (Nat.lt_of_lt_of_le hi h.room) List.not_mem_nil]
  exact h.fits i hi

theorem FitsBelow.update {f : Slot → Slot} {i : Nat} (h : d.FitsBelow b m)
    (hf : ∀ slot : Slot, (d i).Learns slot.learned → (d i).Learns (f slot).learned) :
    d.FitsBelow b (m.update i f) := by
  refine ⟨by rw [Memory.next_update]; exact h.room, fun j hj => ?_⟩
  by_cases hji : j = i
  · subst hji
    rw [Memory.slot_update_self (Nat.lt_of_lt_of_le hj h.room)]
    exact hf _ (h.fits j hj)
  · rw [Memory.slot_update_of_ne hji]
    exact h.fits j hj

theorem keeps_setInput (d : Directory) (b : Nat) (s : Site) (columns : Option (List Label)) :
    Work.Keeps (d.FitsBelow b) (Work.setInput s columns) :=
  fun _ hw => hw.update fun _ h => h

theorem keeps_setLearned {l : Learned} (h : (d s.id).Learns l) :
    Work.Keeps (d.FitsBelow b) (Work.setLearned s l) :=
  fun _ hw => hw.update fun _ _ => h

/-- A fit of a tree lets every node learn what its plan can learn, by induction over the tree. -/
theorem fit_keeps (env : Surroundings) (n : Node) (h : d.Lists n) (hids : ∀ i ∈ n.site.ids, i < b)
    (X : Frame) (y : Option Series) :
    Work.Keeps (d.FitsBelow b) (n.plan.fit env n.site X y) := by
  induction n using Node.induction generalizing X y with
  | step n ih =>
  cases h with
  | node hself hinside =>
  obtain ⟨p, s⟩ := n
  have hplan : d s.id = p := hself
  have hfitting : ∀ body : Option Series → Work Unit, (∀ y, Work.Keeps (d.FitsBelow b) (body y)) →
      Work.Keeps (d.FitsBelow b) (Work.fitting s X y body) := fun body hbody =>
    .fitting (keeps_setInput d b s) hbody
  -- What a leaf learns is of its kind; what other nodes write is not asked for.
  by_cases hall : ∀ l, p.Learns l
  · have htaken : ∀ m, d.FitsBelow b m → ∀ i ∈ s.ids, i < m.next := fun m hm i hi =>
      Nat.lt_of_lt_of_le (hids i hi) hm.room
    have hparts : ∀ q ∈ (Node.mk p s).parts, ∀ X y,
        Work.Keeps (d.FitsBelow b) (q.plan.fit env q.site X y) := fun q hq X y =>
      ih q hq (hinside q (Node.mem_inside_of_mem_parts hq))
        (fun i hi => hids i (Node.ids_of_mem_parts hq hi)) X y
    obtain ⟨body, hfit, hbody⟩ := Plan.exists_body_keeps (FitsBelow.lasting d b) env p s X htaken
      (fun l => keeps_setLearned (hplan ▸ hall l)) hparts
    rw [hfit]
    exact hfitting body hbody
  · cases p with
    | transformer t =>
      simp only [Plan.fit]
      refine hfitting _ fun y => .bind (.steady (.logged _)) fun fitted => keeps_setLearned ?_
      rw [hplan]
      cases fitted <;> trivial
    | learner l =>
      simp only [Plan.fit]
      refine hfitting _ fun y => ?_
      cases y with
      | none => exact .bind (.reading fun m => .steady (.pure _)) fun _ => .steady (.throw _)
      | some y =>
        refine .bind (.steady (.logged _)) fun model => keeps_setLearned ?_
        rw [hplan]
        cases model <;> trivial
    | _ => exact absurd (fun _ => trivial) hall

/-- Identities that come up in between belong to no tree that is known. -/
theorem FitsBelow.grows (h : d.FitsBelow m.next m') : ∃ d', d.Grows m d' m' := by
  refine ⟨fun i => if i < m.next then d i else default, h.room, fun i hi => if_pos hi,
    fun i _ => ?_⟩
  by_cases hi : i < m.next
  · rw [if_pos hi]
    exact h.fits i hi
  · rw [if_neg hi]
    trivial

end Directory
end ColumnFlow
