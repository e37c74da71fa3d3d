import ColumnFlow.Proofs.Node.Alike

/-!
# Copies

A copy stands on identities of its own, is like its original and has learned nothing, and making it
changes no slot that was there before.
-/
namespace ColumnFlow

namespace Memory

/-- New identities for new nodes, each with a slot that holds nothing but a name. -/
structure Lays (m : Memory) (ids : List Nat) (v : Memory) : Prop where
  extend : Extends [] m v
  distinct : ids.Nodup
  new : ∀ id ∈ ids, m.next ≤ id
  taken : ∀ id ∈ ids, id < v.next
  blank : ∀ id ∈ ids, v.slot id = .fresh (v.slot id).name

namespace Lays

variable {m v v' : Memory} {ids ids' : List Nat}

theorem nil (m : Memory) : m.Lays [] m := by
  constructor <;> simp [Extends.refl]

theorem append (h : m.Lays ids v) (h' : v.Lays ids' v') : m.Lays (ids ++ ids') v' where
  extend := h.extend.trans h'.extend (by simp)
  distinct := by
    refine List.nodup_append.2 ⟨h.distinct, h'.distinct, fun a ha b hb hab => ?_⟩
    have hlt := h.taken a ha
    have hle := h'.new b hb
    omega
  new id hid := by
    rcases List.mem_append.1 hid with hid | hid
    · exact h.new id hid
    · exact Nat.le_trans h.extend.next_le (h'.new id hid)
  taken id hid := by
    rcases List.mem_append.1 hid with hid | hid
    · exact Nat.lt_of_lt_of_le (h.taken id hid) h'.extend.next_le
    · exact h'.taken id hid
  blank id hid := by
    rcases List.mem_append.1 hid with hid | hid
    · rw [h'.extend.slot_eq id (h.taken id hid) (by simp)]
      exact h.blank id hid
    · exact h'.blank id hid

theorem perm (h : m.Lays ids v) (hp : ids.Perm ids') : m.Lays ids' v where
  extend := h.extend
  distinct := hp.nodup_iff.1 h.distinct
  new id hid := h.new id (hp.mem_iff.2 hid)
  taken id hid := h.taken id (hp.mem_iff.2 hid)
  blank id hid := h.blank id (hp.mem_iff.2 hid)

theorem place {parts : List Site} (h : m.Lays (Site.idsOf parts) v) (name : Label) :
    m.Lays (v.place name parts).1.ids (v.place name parts).2 := by
  have htop : v.Lays [v.next] (v.alloc (.fresh name)) := by
    refine ⟨.alloc _ _ _, by simp, by simp, by simp [next_alloc], fun id hid => ?_⟩
    rw [List.mem_singleton.1 hid, slot_alloc_next]
    rfl
  rw [Site.ids_eq]
  exact (h.append htop).perm List.perm_append_comm

theorem holds (h : m.Lays ids v) : v.Holds ids := ⟨h.distinct, h.taken⟩

theorem holds_append (h : m.Lays ids v) (hold : m.Holds ids') : v.Holds (ids' ++ ids) := by
  refine ⟨List.nodup_append.2 ⟨hold.distinct, h.distinct, fun a ha b hb hab => ?_⟩,
    fun id hid => ?_⟩
  · have hlt := hold.taken a ha
    have hle := h.new b hb
    omega
  · rcases List.mem_append.1 hid with hid | hid
    · exact Nat.lt_of_lt_of_le (hold.taken id hid) h.extend.next_le
    · exact h.taken id hid

end Lays

theorem label_place (m : Memory) (name : Label) (parts : List Site) :
    (m.place name parts).2.label (m.place name parts).1 = name := by
  simp only [place, label, Site.id, slot_alloc_next, Slot.fresh]

theorem extends_place (m : Memory) (name : Label) (parts : List Site) :
    Extends [] m (m.place name parts).2 := .alloc _ _ _

end Memory

namespace Plan

/-- A copy of a tree: new identities, and the same names. -/
structure Copies (m : Memory) (p : Plan) (s c : Site) (v : Memory) : Prop where
  lays : m.Lays c.ids v
  alike : Alike v v p s c

variable {m v : Memory} {p t : Plan} {ps : List Plan} {s c : Site} {ss cs : List Site}

theorem copiedName_eq {name : Label} (p : Plan) (h : name.isTrue = true) :
    p.copiedName name = name := by
  simp [copiedName, h]

theorem lays_leaf (hs : s.id < m.next) (hc : m.place (m.slot s.id).name [] = (c, v)) :
    m.Lays c.ids v ∧ v.label s = v.label c := by
  have hnone : m.Lays (Site.idsOf []) m := .nil m
  have hlays := hnone.place (m.slot s.id).name
  have hlabel := m.label_place (m.slot s.id).name []
  have hext := m.extends_place (m.slot s.id).name []
  rw [hc] at hlays hlabel hext
  rw [hlabel]
  exact ⟨hlays, hext.name_eq s.id hs⟩

/-- An inner node with the name of another, over new parts. -/
theorem lays_inner {m' : Memory} (h : m.Lays (Site.idsOf cs) m') (hs : s.id < m.next)
    (hname : m.SameName m s s) (hc : m'.place (m.slot s.id).name cs = (c, v)) :
    c.parts = cs ∧ Memory.Extends [] m' v ∧ m.Lays c.ids v ∧ v.SameName v s c := by
  have hlays := h.place (m.slot s.id).name
  have hlabel := m'.label_place (m.slot s.id).name cs
  have hext := m'.extends_place (m.slot s.id).name cs
  have hparts : (m'.place (m.slot s.id).name cs).1.parts = cs := rfl
  rw [hc] at hlays hlabel hext hparts
  have hold : v.label s = m.label s := hlays.extend.name_eq s.id hs
  refine ⟨hparts, hext, hlays, ?_, ?_⟩
  · rw [hold, hlabel]
    rfl
  · rw [hold]
    exact hname.2

theorem copyAll_copies
    (ih : ∀ p ∈ ps, ∀ s c m v, Alike m m p s s → (∀ id ∈ s.ids, id < m.next) →
      p.copy s m = (c, v) → Copies m p s c v)
    (h : Each (Alike m m) ps ss ss) (hs : ∀ id ∈ Site.idsOf ss, id < m.next)
    (hc : copyAll ps ss m = (cs, v)) :
    m.Lays (Site.idsOf cs) v ∧ Each (Alike v v) ps ss cs := by
  induction ps generalizing ss cs m with
  | nil =>
    cases h
    simp only [copyAll, Prod.mk.injEq] at hc
    obtain ⟨rfl, rfl⟩ := hc
    exact ⟨.nil m, .nil⟩
  | cons p ps ihs =>
    cases h with
    | @cons _ _ s _ ss _ hp hps =>
      simp only [Site.idsOf, List.mem_append] at hs
      simp only [copyAll] at hc
      rcases hfirst : p.copy s m with ⟨c, m'⟩
      rcases hrest : copyAll ps ss m' with ⟨ds, v'⟩
      simp only [hfirst, hrest, Prod.mk.injEq] at hc
      obtain ⟨rfl, rfl⟩ := hc
      have hcopy := ih p (by simp) s c m m' hp (fun id hid => hs id (.inl hid)) hfirst
      have hm := hcopy.lays.extend
      have hlt : ∀ id, id < m.next → id < m'.next := fun id hid =>
        Nat.lt_of_lt_of_le hid hm.next_le
      have htail := extend_alike hps (fun id hid => hs id (.inr hid))
        (fun id hid => hs id (.inr hid)) hm hm
      obtain ⟨hlays, heach⟩ := ihs (fun q hq => ih q (by simp [hq])) htail
        (fun id hid => hlt id (hs id (.inr hid))) hrest
      refine ⟨hcopy.lays.append hlays, .cons ?_ heach⟩
      exact hcopy.alike.extend (fun id hid => hlt id (hs id (.inl hid))) hcopy.lays.taken
        hlays.extend hlays.extend

/-- Copies of one tree lie side by side, and each is like the tree. -/
theorem times_copies {n : Nat}
    (ih : ∀ c m v, Alike m m p s s → (∀ id ∈ s.ids, id < m.next) → p.copy s m = (c, v) →
      Copies m p s c v)
    (h : Alike m m p s s) (hs : ∀ id ∈ s.ids, id < m.next)
    (hc : Memory.times (fun m => p.copy s m) n m = (cs, v)) :
    m.Lays (Site.idsOf cs) v ∧ cs.length = n ∧ ∀ c ∈ cs, Alike v v p s c := by
  induction n generalizing cs m with
  | zero =>
    simp only [Memory.times, Prod.mk.injEq] at hc
    obtain ⟨rfl, rfl⟩ := hc
    exact ⟨.nil m, rfl, by simp⟩
  | succ n ihn =>
    simp only [Memory.times] at hc
    rcases hfirst : p.copy s m with ⟨c, m'⟩
    rcases hrest : Memory.times (fun m => p.copy s m) n m' with ⟨ds, v'⟩
    simp only [hfirst, hrest, Prod.mk.injEq] at hc
    obtain ⟨rfl, rfl⟩ := hc
    have hcopy := ih c m m' h hs hfirst
    have hm := hcopy.lays.extend
    have hlt : ∀ id ∈ s.ids, id < m'.next := fun id hid =>
      Nat.lt_of_lt_of_le (hs id hid) hm.next_le
    obtain ⟨hlays, hlen, hall⟩ := ihn (h.extend hs hs hm hm) hlt hrest
    refine ⟨hcopy.lays.append hlays, by simp [hlen], fun d hd => ?_⟩
    rcases List.mem_cons.1 hd with rfl | hd
    · exact hcopy.alike.extend hlt hcopy.lays.taken hlays.extend hlays.extend
    · exact hall d hd

/-- A copy of a tree that has a site for every position is one that lies apart and is like it. -/
theorem copy_copies (h : Alike m m p s s) (hs : ∀ id ∈ s.ids, id < m.next)
    (hc : p.copy s m = (c, v)) : Copies m p s c v := by
  induction p using Plan.induction generalizing s c m v
  case transformer | learner | element =>
    simp only [copy] at hc
    obtain ⟨hlays, hlabel⟩ := lays_leaf (hs _ s.id_mem_ids) hc
    exact ⟨hlays, by simpa only [Alike] using hlabel⟩
  case sequential ps ih | parallel ps ih | vote ps ih | best ps policy ih =>
    simp only [Alike, alikeAll_iff] at h
    rcases hparts : copyAll ps s.parts m with ⟨cs, m'⟩
    have hname : (m.slot s.id).name.isTrue = true := h.1.2
    simp only [copy, hparts, copiedName_eq _ hname] at hc
    obtain ⟨hlays, heach⟩ := copyAll_copies (fun p hp s c m v => ih p hp) h.2
      (fun id hid => hs id (Site.mem_ids_of_mem_idsOf_parts hid)) hparts
    obtain ⟨hcs, hext, hc, hsame⟩ := lays_inner hlays (hs _ s.id_mem_ids) h.1 hc
    refine ⟨hc, ?_⟩
    simp only [Alike, alikeAll_iff, hcs]
    refine ⟨hsame, extend_alike heach (fun id hid => ?_) hlays.taken hext hext⟩
    exact Nat.lt_of_lt_of_le (hs id (Site.mem_ids_of_mem_idsOf_parts hid)) hlays.extend.next_le
  case stack t ps settings iht ih =>
    simp only [Alike, alikeAll_iff] at h
    obtain ⟨hname, hne, -, hfirst, hrest⟩ := h
    rcases hparts : copyAll ps s.rest m with ⟨cs, m'⟩
    rcases htop : t.copy s.first m' with ⟨d, m''⟩
    have hname' : (m.slot s.id).name.isTrue = true := hname.2
    simp only [copy, hparts, htop, copiedName_eq _ hname'] at hc
    obtain ⟨hlays, heach⟩ := copyAll_copies (fun p hp s c m v => ih p hp) hrest
      (fun id hid => hs id (Site.mem_ids_of_mem_idsOf_rest hid)) hparts
    have hm := hlays.extend
    have hlt : ∀ id, id ∈ s.ids → id < m'.next := fun id hid =>
      Nat.lt_of_lt_of_le (hs id hid) hm.next_le
    have hd := iht (hfirst.extend (fun id hid => hs id (Site.mem_ids_of_mem_first hid))
      (fun id hid => hs id (Site.mem_ids_of_mem_first hid)) hm hm)
      (fun id hid => hlt id (Site.mem_ids_of_mem_first hid)) htop
    have hboth : m.Lays (Site.idsOf (d :: cs)) m'' :=
      (hlays.append hd.lays).perm List.perm_append_comm
    obtain ⟨hcs, hext, hc, hsame⟩ := lays_inner hboth (hs _ s.id_mem_ids) hname hc
    have hv := hd.lays.extend.trans hext (by simp)
    refine ⟨hc, ?_⟩
    have hcfirst : c.first = d := by simp [Site.first, hcs]
    have hcrest : c.rest = cs := by simp [Site.rest, hcs]
    simp only [Alike, alikeAll_iff, hcfirst, hcrest]
    refine ⟨hsame, hne, by simp [hcs], ?_, ?_⟩
    · refine hd.alike.extend (fun id hid => ?_) hd.lays.taken hext hext
      exact Nat.lt_of_lt_of_le (hlt id (Site.mem_ids_of_mem_first hid)) hd.lays.extend.next_le
    · exact extend_alike heach (fun id hid => hlt id (Site.mem_ids_of_mem_idsOf_rest hid))
        hlays.taken hv hv
  case bagging t settings ih =>
    simp only [Alike] at h
    obtain ⟨hname, hlen, -, hall⟩ := h
    have hne : s.parts ≠ [] := List.ne_nil_of_length_eq_add_one hlen
    rcases htemplate : t.copy s.first m with ⟨d, m'⟩
    rcases hmembers : Memory.times (fun m => t.copy d m) settings.count.toNat m' with ⟨cs, m''⟩
    have hname' : (m.slot s.id).name.isTrue = true := hname.2
    simp only [copy, htemplate, hmembers, copiedName_eq _ hname'] at hc
    have hmem := Site.first_mem_parts hne
    have hd := ih (hall _ hmem _ hmem) (fun id hid => hs id (Site.mem_ids_of_mem_first hid))
      htemplate
    obtain ⟨hlays, hcount, hcopies⟩ := times_copies (fun c m v => ih)
      (hd.alike.symm.trans hd.alike) hd.lays.taken hmembers
    have hboth : m.Lays (Site.idsOf (d :: cs)) m'' := hd.lays.append hlays
    obtain ⟨hcs, hext, hc, hsame⟩ := lays_inner hboth (hs _ s.id_mem_ids) hname hc
    refine ⟨hc, ?_⟩
    simp only [Alike, hcs]
    refine ⟨hsame, hlen, by simp [hcount], fun r hr r' hr' => ?_⟩
    -- Every part is like the template, which its copy is like, which all members are like.
    have hold : Alike v v t r s.first := by
      refine (hall r hr _ hmem).extend (fun id hid => ?_) (fun id hid => ?_) hc.extend hc.extend
      · exact hs id (Site.mem_ids_of_mem_part hr hid)
      · exact hs id (Site.mem_ids_of_mem_first hid)
    have hv := hlays.extend.trans hext (by simp)
    have hmid : Alike v v t s.first d := by
      refine hd.alike.extend (fun id hid => ?_) hd.lays.taken hv hv
      exact Nat.lt_of_lt_of_le (hs id (Site.mem_ids_of_mem_first hid)) hd.lays.extend.next_le
    rcases List.mem_cons.1 hr' with rfl | hr'
    · exact hold.trans hmid
    · refine hold.trans (hmid.trans ?_)
      refine (hcopies r' hr').extend (fun id hid => ?_) (fun id hid => ?_) hext hext
      · exact Nat.lt_of_lt_of_le (hd.lays.taken id hid) hlays.extend.next_le
      · exact hlays.taken id (Site.mem_idsOf.2 ⟨r', hr', hid⟩)

/-- Nothing is fitted on new identities. -/
theorem isFitted_of_lays {ids : List Nat} (h : m.Lays ids v) (hs : s.id ∈ ids) :
    isFitted v p s = false := by
  have hinput : v.hasInput s = false := by
    unfold Memory.hasInput Memory.inputColumns
    rw [h.blank _ hs]
    rfl
  cases p <;> simp only [isFitted, hinput, Bool.false_and]

theorem Copies.isFitted_eq_false (h : Copies m p s c v) : isFitted v p c = false :=
  isFitted_of_lays h.lays c.id_mem_ids

end Plan
end ColumnFlow
