import ColumnFlow.Node.Memory

/-!
# Footprints

What a computation may change in a memory: the slots of the identities it is given, and slots that
did not exist before. No name of an older slot changes.
-/
namespace ColumnFlow

namespace Site

theorem id_mem_ids (s : Site) : s.id ∈ s.ids := by
  cases s with
  | mk id parts => simp [ids, Site.id]

theorem ids_eq (s : Site) : s.ids = s.id :: idsOf s.parts := by
  cases s with
  | mk id ps => simp [ids, Site.id, parts]

theorem mem_idsOf {id : Nat} {ss : List Site} : id ∈ idsOf ss ↔ ∃ s ∈ ss, id ∈ s.ids := by
  induction ss with
  | nil => simp [idsOf]
  | cons s ss ih => simp [idsOf, ih]

theorem idsOf_append (ss ss' : List Site) : idsOf (ss ++ ss') = idsOf ss ++ idsOf ss' := by
  induction ss with
  | nil => rfl
  | cons s ss ih => simp only [List.cons_append, idsOf, ih, List.append_assoc]

theorem mem_ids_of_mem_idsOf_parts {s : Site} {id : Nat} (h : id ∈ idsOf s.parts) :
    id ∈ s.ids := by
  rw [ids_eq]
  exact List.mem_cons_of_mem _ h

theorem mem_ids_of_mem_part {s r : Site} {id : Nat} (hr : r ∈ s.parts) (h : id ∈ r.ids) :
    id ∈ s.ids :=
  mem_ids_of_mem_idsOf_parts (mem_idsOf.2 ⟨r, hr, h⟩)

theorem parts_eq {s : Site} (h : s.parts ≠ []) : s.parts = s.first :: s.rest := by
  unfold first rest
  cases hs : s.parts with
  | nil => exact absurd hs h
  | cons r rs => rfl

theorem mem_parts_of_mem_rest {s r : Site} (h : r ∈ s.rest) : r ∈ s.parts :=
  List.mem_of_mem_tail h

theorem first_mem_parts {s : Site} (h : s.parts ≠ []) : s.first ∈ s.parts := by
  rw [parts_eq h]
  exact List.mem_cons_self

theorem mem_ids_of_mem_first {s : Site} {id : Nat} (h : id ∈ s.first.ids) : id ∈ s.ids := by
  unfold first at h
  cases hs : s.parts with
  | nil =>
    rw [hs] at h
    simp only [List.headD_nil, ids, idsOf, List.mem_singleton] at h
    subst h
    exact id_mem_ids s
  | cons r rs =>
    rw [hs] at h
    exact mem_ids_of_mem_part (by simp [hs]) h

theorem mem_ids_of_mem_idsOf_rest {s : Site} {id : Nat} (h : id ∈ idsOf s.rest) : id ∈ s.ids := by
  obtain ⟨r, hr, hid⟩ := mem_idsOf.1 h
  exact mem_ids_of_mem_part (mem_parts_of_mem_rest hr) hid

end Site

namespace Memory

theorem next_alloc (m : Memory) (s : Slot) : (m.alloc s).next = m.next + 1 := by
  simp [alloc, next]

/-- What became of a memory: new slots, and other contents in the slots of some identities. -/
structure Extends (changed : List Nat) (m m' : Memory) : Prop where
  next_le : m.next ≤ m'.next
  name_eq : ∀ id, id < m.next → (m'.slot id).name = (m.slot id).name
  slot_eq : ∀ id, id < m.next → id ∉ changed → m'.slot id = m.slot id

namespace Extends

variable {S T : List Nat} {m m' m'' : Memory}

theorem refl (S : List Nat) (m : Memory) : Extends S m m :=
  ⟨Nat.le_refl _, fun _ _ => rfl, fun _ _ _ => rfl⟩

/-- One change after another. What the second changes may be new since the first began. -/
theorem trans (h : Extends S m m') (h' : Extends T m' m'')
    (hT : ∀ id ∈ T, id ∈ S ∨ m.next ≤ id) : Extends S m m'' where
  next_le := Nat.le_trans h.next_le h'.next_le
  name_eq id hid := by
    rw [h'.name_eq id (Nat.lt_of_lt_of_le hid h.next_le), h.name_eq id hid]
  slot_eq id hid hS := by
    have hnot : id ∉ T := by
      intro hmem
      rcases hT id hmem with hin | hnew
      · exact hS hin
      · omega
    rw [h'.slot_eq id (Nat.lt_of_lt_of_le hid h.next_le) hnot, h.slot_eq id hid hS]

theorem mono (h : Extends S m m') (hST : ∀ id ∈ S, id ∈ T) : Extends T m m' :=
  ⟨h.next_le, h.name_eq, fun id hid hT => h.slot_eq id hid fun hS => hT (hST id hS)⟩

theorem alloc (S : List Nat) (m : Memory) (s : Slot) : Extends S m (m.alloc s) where
  next_le := by rw [next_alloc]; omega
  name_eq id hid := by rw [slot_alloc_of_lt hid]
  slot_eq id hid _ := slot_alloc_of_lt hid

theorem update {id : Nat} {f : Slot → Slot} (hid : id ∈ S) (hf : ∀ s, (f s).name = s.name)
    (m : Memory) : Extends S m (m.update id f) where
  next_le := Nat.le_of_eq (next_update m id f).symm
  name_eq j hj := by
    by_cases h : j = id
    · subst h
      rw [slot_update_self hj, hf]
    · rw [slot_update_of_ne h]
  slot_eq j _ hS := by
    refine slot_update_of_ne fun h => hS ?_
    rw [h]
    exact hid

theorem update_new {id : Nat} (h : Extends S m m') (hid : m.next ≤ id) (f : Slot → Slot) :
    Extends S m (m'.update id f) := by
  have hne : ∀ j, j < m.next → j ≠ id := fun j hj => Nat.ne_of_lt (Nat.lt_of_lt_of_le hj hid)
  refine ⟨by rw [next_update]; exact h.next_le, fun j hj => ?_, fun j hj hS => ?_⟩
  · rw [slot_update_of_ne (hne j hj), h.name_eq j hj]
  · rw [slot_update_of_ne (hne j hj), h.slot_eq j hj hS]

end Extends

/-- Identities that are in use and stand for one position each. -/
structure Holds (m : Memory) (ids : List Nat) : Prop where
  distinct : ids.Nodup
  taken : ∀ id ∈ ids, id < m.next

namespace Holds

variable {S T : List Nat} {m m' : Memory}

theorem extend (h : m.Holds T) (he : Extends S m m') : m'.Holds T :=
  ⟨h.distinct, fun id hid => Nat.lt_of_lt_of_le (h.taken id hid) he.next_le⟩

theorem sublist (h : m.Holds T) (hs : S.Sublist T) : m.Holds S :=
  ⟨h.distinct.sublist hs, fun id hid => h.taken id (hs.subset hid)⟩

theorem perm (h : m.Holds S) (hp : S.Perm T) : m.Holds T :=
  ⟨hp.nodup_iff.1 h.distinct, fun id hid => h.taken id (hp.mem_iff.2 hid)⟩

theorem left (h : m.Holds (S ++ T)) : m.Holds S := h.sublist (List.sublist_append_left S T)

theorem right (h : m.Holds (S ++ T)) : m.Holds T := h.sublist (List.sublist_append_right S T)

theorem disjoint (h : m.Holds (S ++ T)) {id : Nat} (hid : id ∈ S) : id ∉ T :=
  fun hT => (List.nodup_append.1 h.distinct).2.2 id hid id hT rfl

theorem parts {s : Site} (h : m.Holds s.ids) : m.Holds (Site.idsOf s.parts) := by
  rw [Site.ids_eq] at h
  exact h.sublist (List.sublist_cons_self _ _)

theorem id_notMem_parts {s : Site} (h : m.Holds s.ids) : s.id ∉ Site.idsOf s.parts := by
  have hd := h.distinct
  rw [Site.ids_eq] at hd
  exact (List.nodup_cons.1 hd).1

theorem id_notMem_rest {s : Site} (h : m.Holds s.ids) : s.id ∉ Site.idsOf s.rest := by
  intro hid
  obtain ⟨r, hr, hid⟩ := Site.mem_idsOf.1 hid
  exact h.id_notMem_parts (Site.mem_idsOf.2 ⟨r, Site.mem_parts_of_mem_rest hr, hid⟩)

theorem id_notMem_first {s : Site} (h : m.Holds s.ids) (hs : s.parts ≠ []) :
    s.id ∉ s.first.ids := fun hid =>
  h.id_notMem_parts (Site.mem_idsOf.2 ⟨s.first, Site.first_mem_parts hs, hid⟩)

theorem first_rest {s : Site} (h : m.Holds s.ids) (hs : s.parts ≠ []) :
    m.Holds (s.first.ids ++ Site.idsOf s.rest) := by
  have hp := h.parts
  rw [Site.parts_eq hs, Site.idsOf] at hp
  exact hp

theorem id_taken {s : Site} (h : m.Holds s.ids) : s.id < m.next := h.taken _ s.id_mem_ids

end Holds
end Memory
end ColumnFlow
