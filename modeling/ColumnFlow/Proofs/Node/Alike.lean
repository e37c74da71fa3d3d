import ColumnFlow.Node.Copy
import ColumnFlow.Node.View
import ColumnFlow.Proofs.Node.Footprint

/-!
# Trees alike

Induction over plans, and pairs of trees that have one plan and equal names. A tree that is like
itself has a site for every position of its plan.
-/
namespace ColumnFlow

namespace Plan

theorem induction {motive : Plan → Prop}
    (transformer : ∀ t, motive (.transformer t))
    (learner : ∀ l, motive (.learner l))
    (element : ∀ e, motive (.element e))
    (sequential : ∀ ps, (∀ p ∈ ps, motive p) → motive (.sequential ps))
    (parallel : ∀ ps, (∀ p ∈ ps, motive p) → motive (.parallel ps))
    (vote : ∀ ps, (∀ p ∈ ps, motive p) → motive (.vote ps))
    (stack : ∀ t ps settings, motive t → (∀ p ∈ ps, motive p) → motive (.stack t ps settings))
    (best : ∀ ps policy, (∀ p ∈ ps, motive p) → motive (.best ps policy))
    (bagging : ∀ t settings, motive t → motive (.bagging t settings)) (p : Plan) : motive p := by
  refine @Plan.rec motive (fun ps => ∀ p ∈ ps, motive p) transformer learner element sequential
    parallel vote stack best bagging ?nil ?cons p
  case nil => simp
  case cons =>
    intro p ps hp hps q hq
    rcases List.mem_cons.1 hq with h | h
    · rw [h]
      exact hp
    · exact hps q h

end Plan

/-- A relation between the sites of two trees, part by part. -/
inductive Each (R : Plan → Site → Site → Prop) : List Plan → List Site → List Site → Prop
  | nil : Each R [] [] []
  | cons {p : Plan} {ps : List Plan} {s s' : Site} {ss ss' : List Site} :
      R p s s' → Each R ps ss ss' → Each R (p :: ps) (s :: ss) (s' :: ss')

namespace Each

variable {R R' R'' : Plan → Site → Site → Prop} {ps : List Plan} {ss ss' ss'' : List Site}

theorem imp (h : Each R ps ss ss')
    (hR : ∀ p ∈ ps, ∀ s ∈ ss, ∀ s' ∈ ss', R p s s' → R' p s s') : Each R' ps ss ss' := by
  induction h with
  | nil => exact .nil
  | cons hs _ ih =>
    refine .cons (hR _ (by simp) _ (by simp) _ (by simp) hs) (ih fun p hp s hs s' hs' => ?_)
    exact hR p (by simp [hp]) s (by simp [hs]) s' (by simp [hs'])

theorem symm (h : Each R ps ss ss') (hR : ∀ p ∈ ps, ∀ s s', R p s s' → R' p s' s) :
    Each R' ps ss' ss := by
  induction h with
  | nil => exact .nil
  | cons hs _ ih => exact .cons (hR _ (by simp) _ _ hs) (ih fun p hp => hR p (by simp [hp]))

theorem trans (h : Each R ps ss ss') (h' : Each R' ps ss' ss'')
    (hR : ∀ p ∈ ps, ∀ s s' s'', R p s s' → R' p s' s'' → R'' p s s'') : Each R'' ps ss ss'' := by
  induction h generalizing ss'' with
  | nil =>
    cases h'
    exact .nil
  | cons hs _ ih =>
    cases h' with
    | cons hs' h' =>
      exact .cons (hR _ (by simp) _ _ _ hs hs') (ih h' fun p hp => hR p (by simp [hp]))

end Each

namespace Memory

/-- Two inner nodes with one name, which does not count as false. -/
def SameName (m m' : Memory) (s s' : Site) : Prop :=
  m.label s = m'.label s' ∧ (m.label s).isTrue = true

namespace SameName

variable {m m' m'' v v' : Memory} {s s' s'' : Site}

theorem symm (h : m.SameName m' s s') : m'.SameName m s' s :=
  ⟨h.1.symm, h.1 ▸ h.2⟩

theorem trans (h : m.SameName m' s s') (h' : m'.SameName m'' s' s'') : m.SameName m'' s s'' :=
  ⟨h.1.trans h'.1, h.2⟩

theorem congr (h : m.SameName m' s s') (hv : v.label s = m.label s)
    (hv' : v'.label s' = m'.label s') : v.SameName v' s s' := by
  unfold SameName
  rw [hv, hv']
  exact h

end SameName
end Memory

namespace Plan

mutual

/-- Two trees of one plan with equal names in equal positions. Inner nodes have names that do not
count as false, and a bagging ensemble has as many members as were asked for, all of them named
like its template. -/
@[simp] def Alike (m m' : Memory) : Plan → Site → Site → Prop
  | .transformer _, s, s' | .learner _, s, s' | .element _, s, s' => m.label s = m'.label s'
  | .sequential ps, s, s' | .parallel ps, s, s' | .vote ps, s, s' | .best ps _, s, s' =>
    m.SameName m' s s' ∧ AlikeAll m m' ps s.parts s'.parts
  | .stack t ps _, s, s' =>
    m.SameName m' s s' ∧ s.parts ≠ [] ∧ s'.parts ≠ [] ∧ Alike m m' t s.first s'.first ∧
      AlikeAll m m' ps s.rest s'.rest
  | .bagging t settings, s, s' =>
    m.SameName m' s s' ∧ s.parts.length = settings.count.toNat + 1 ∧
      s'.parts.length = settings.count.toNat + 1 ∧
      ∀ r ∈ s.parts, ∀ r' ∈ s'.parts, Alike m m' t r r'

def AlikeAll (m m' : Memory) : List Plan → List Site → List Site → Prop
  | [], [], [] => True
  | p :: ps, s :: ss, s' :: ss' => Alike m m' p s s' ∧ AlikeAll m m' ps ss ss'
  | _, _, _ => False

end

variable {m m' m'' v v' : Memory} {p t : Plan} {ps : List Plan} {s s' s'' : Site}
  {ss ss' ss'' : List Site}

@[simp] theorem alikeAll_iff : AlikeAll m m' ps ss ss' ↔ Each (Alike m m') ps ss ss' := by
  constructor
  · intro h
    induction ps generalizing ss ss' with
    | nil =>
      rcases ss with _ | ⟨s, ss⟩ <;> rcases ss' with _ | ⟨s', ss'⟩ <;> simp only [AlikeAll] at h
      exact .nil
    | cons p ps ih =>
      rcases ss with _ | ⟨s, ss⟩ <;> rcases ss' with _ | ⟨s', ss'⟩ <;> simp only [AlikeAll] at h
      exact .cons h.1 (ih h.2)
  · intro h
    induction h with
    | nil => simp only [AlikeAll]
    | cons hs _ ih => exact ⟨hs, ih⟩

theorem Alike.label_eq (h : Alike m m' p s s') : m.label s = m'.label s' := by
  cases p <;> simp only [Alike] at h
  case transformer => exact h
  case learner => exact h
  case element => exact h
  all_goals exact h.1.1

/-! Likeness is symmetric and transitive. It is no equivalence, since a tree that lacks a site is
not like itself. -/

theorem Alike.symm (h : Alike m m' p s s') : Alike m' m p s' s := by
  induction p using Plan.induction generalizing s s' with
  | transformer t | learner l | element e =>
    simp only [Alike] at h ⊢
    exact h.symm
  | sequential ps ih | parallel ps ih | vote ps ih | best ps policy ih =>
    simp only [Alike, alikeAll_iff] at h ⊢
    exact ⟨h.1.symm, h.2.symm fun p hp _ _ => ih p hp⟩
  | stack t ps settings iht ih =>
    simp only [Alike, alikeAll_iff] at h ⊢
    obtain ⟨hname, hs, hs', hfirst, hrest⟩ := h
    exact ⟨hname.symm, hs', hs, iht hfirst, hrest.symm fun p hp _ _ => ih p hp⟩
  | bagging t settings ih =>
    simp only [Alike] at h ⊢
    obtain ⟨hname, hs, hs', hall⟩ := h
    exact ⟨hname.symm, hs', hs, fun r' hr' r hr => ih (hall r hr r' hr')⟩

theorem Alike.trans (h : Alike m m' p s s') (h' : Alike m' m'' p s' s'') :
    Alike m m'' p s s'' := by
  induction p using Plan.induction generalizing s s' s'' with
  | transformer t | learner l | element e =>
    simp only [Alike] at h h' ⊢
    exact h.trans h'
  | sequential ps ih | parallel ps ih | vote ps ih | best ps policy ih =>
    simp only [Alike, alikeAll_iff] at h h' ⊢
    exact ⟨h.1.trans h'.1, h.2.trans h'.2 fun p hp _ _ _ => ih p hp⟩
  | stack t ps settings iht ih =>
    simp only [Alike, alikeAll_iff] at h h' ⊢
    obtain ⟨hname, hs, _, hfirst, hrest⟩ := h
    obtain ⟨hname', _, hs'', hfirst', hrest'⟩ := h'
    exact ⟨hname.trans hname', hs, hs'', iht hfirst hfirst',
      hrest.trans hrest' fun p hp _ _ _ => ih p hp⟩
  | bagging t settings ih =>
    simp only [Alike] at h h' ⊢
    obtain ⟨hname, hs, hs', hall⟩ := h
    obtain ⟨hname', _, hs'', hall'⟩ := h'
    refine ⟨hname.trans hname', hs, hs'', fun r hr r'' hr'' => ?_⟩
    -- Any part of the tree between will do, and there is one: its template.
    have hne : s'.parts ≠ [] := List.ne_nil_of_length_eq_add_one hs'
    exact ih (hall r hr _ (Site.first_mem_parts hne)) (hall' _ (Site.first_mem_parts hne) r'' hr'')

theorem Alike.congr (h : Alike m m' p s s')
    (hv : ∀ id ∈ s.ids, (v.slot id).name = (m.slot id).name)
    (hv' : ∀ id ∈ s'.ids, (v'.slot id).name = (m'.slot id).name) : Alike v v' p s s' := by
  induction p using Plan.induction generalizing s s' with
  | transformer t | learner l | element e =>
    simp only [Alike, Memory.label] at h ⊢
    rw [hv _ s.id_mem_ids, hv' _ s'.id_mem_ids, h]
  | sequential ps ih | parallel ps ih | vote ps ih | best ps policy ih =>
    simp only [Alike, alikeAll_iff] at h ⊢
    refine ⟨h.1.congr (hv _ s.id_mem_ids) (hv' _ s'.id_mem_ids),
      h.2.imp fun p hp r hr r' hr' h => ih p hp h (fun id hid => ?_) fun id hid => ?_⟩
    · exact hv id (Site.mem_ids_of_mem_part hr hid)
    · exact hv' id (Site.mem_ids_of_mem_part hr' hid)
  | stack t ps settings iht ih =>
    simp only [Alike, alikeAll_iff] at h ⊢
    obtain ⟨hname, hs, hs', hfirst, hrest⟩ := h
    refine ⟨hname.congr (hv _ s.id_mem_ids) (hv' _ s'.id_mem_ids), hs, hs',
      iht hfirst (fun id hid => hv id (Site.mem_ids_of_mem_first hid))
        (fun id hid => hv' id (Site.mem_ids_of_mem_first hid)),
      hrest.imp fun p hp r hr r' hr' h => ih p hp h (fun id hid => ?_) fun id hid => ?_⟩
    · exact hv id (Site.mem_ids_of_mem_part (Site.mem_parts_of_mem_rest hr) hid)
    · exact hv' id (Site.mem_ids_of_mem_part (Site.mem_parts_of_mem_rest hr') hid)
  | bagging t settings ih =>
    simp only [Alike] at h ⊢
    obtain ⟨hname, hs, hs', hall⟩ := h
    refine ⟨hname.congr (hv _ s.id_mem_ids) (hv' _ s'.id_mem_ids), hs, hs',
      fun r hr r' hr' => ih (hall r hr r' hr') (fun id hid => ?_) fun id hid => ?_⟩
    · exact hv id (Site.mem_ids_of_mem_part hr hid)
    · exact hv' id (Site.mem_ids_of_mem_part hr' hid)

/-- Likeness outlasts everything that happens to trees in use. -/
theorem Alike.extend {S S' : List Nat} (h : Alike m m' p s s') (hs : ∀ id ∈ s.ids, id < m.next)
    (hs' : ∀ id ∈ s'.ids, id < m'.next) (hv : Memory.Extends S m v)
    (hv' : Memory.Extends S' m' v') : Alike v v' p s s' :=
  h.congr (fun id hid => hv.name_eq id (hs id hid)) fun id hid => hv'.name_eq id (hs' id hid)

theorem extend_alike {S S' : List Nat} (h : Each (Alike m m') ps ss ss')
    (hs : ∀ id ∈ Site.idsOf ss, id < m.next) (hs' : ∀ id ∈ Site.idsOf ss', id < m'.next)
    (hv : Memory.Extends S m v) (hv' : Memory.Extends S' m' v') :
    Each (Alike v v') ps ss ss' :=
  h.imp fun _ _ _ hr _ hr' h =>
    h.extend (fun id hid => hs id (Site.mem_idsOf.2 ⟨_, hr, hid⟩))
      (fun id hid => hs' id (Site.mem_idsOf.2 ⟨_, hr', hid⟩)) hv hv'

/-! The structure and the text of a tree are made of names. -/

theorem outlines_eq (h : Each (Alike m m') ps ss ss')
    (ih : ∀ p ∈ ps, ∀ s s', Alike m m' p s s' → outline m p s = outline m' p s') :
    outlines m ps ss = outlines m' ps ss' := by
  induction h with
  | nil => simp only [outlines]
  | cons hs _ ihs =>
    simp only [outlines]
    rw [ih _ (by simp) _ _ hs, ihs fun q hq => ih q (by simp [hq])]

theorem Alike.outline_eq (h : Alike m m' p s s') : outline m p s = outline m' p s' := by
  induction p using Plan.induction generalizing s s'
  all_goals
    have hlabel := h.label_eq
    simp only [Alike, alikeAll_iff] at h
    simp only [outline, hlabel]
  case sequential ps ih | parallel ps ih | vote ps ih | best ps policy ih =>
    rw [outlines_eq h.2 fun p hp _ _ => ih p hp]
  case stack t ps settings iht ih =>
    obtain ⟨-, -, -, hfirst, hrest⟩ := h
    rw [iht hfirst, outlines_eq hrest fun p hp _ _ => ih p hp]
  case bagging t settings ih =>
    obtain ⟨-, hs, hs', hall⟩ := h
    have hne : s.parts ≠ [] := List.ne_nil_of_length_eq_add_one hs
    have hne' : s'.parts ≠ [] := List.ne_nil_of_length_eq_add_one hs'
    rw [ih (hall _ (Site.first_mem_parts hne) _ (Site.first_mem_parts hne'))]

theorem texts_eq (h : Each (Alike m m') ps ss ss')
    (ih : ∀ p ∈ ps, ∀ s s', Alike m m' p s s' → text m p s = text m' p s') :
    texts m ps ss = texts m' ps ss' := by
  induction h with
  | nil => simp only [texts]
  | cons hs _ ihs =>
    simp only [texts]
    rw [ih _ (by simp) _ _ hs, ihs fun q hq => ih q (by simp [hq])]

theorem texts_members_eq (hlen : ss.length = ss'.length)
    (h : ∀ r ∈ ss, ∀ r' ∈ ss', text m t r = text m' t r') :
    (ss.mapM fun r => text m t r) = ss'.mapM fun r => text m' t r := by
  induction ss generalizing ss' with
  | nil =>
    rw [List.length_nil] at hlen
    simp only [List.length_eq_zero_iff.1 hlen.symm, List.mapM_nil]
  | cons r ss ih =>
    cases ss' with
    | nil => simp at hlen
    | cons r' ss' =>
      simp only [List.length_cons, Nat.add_right_cancel_iff] at hlen
      have htail := ih hlen fun q hq q' hq' => h q (by simp [hq]) q' (by simp [hq'])
      simp only [List.mapM_cons, h r (by simp) r' (by simp), htail]

theorem Alike.text_eq (h : Alike m m' p s s') : text m p s = text m' p s' := by
  induction p using Plan.induction generalizing s s'
  all_goals
    have hlabel := h.label_eq
    simp only [Alike, alikeAll_iff] at h
    simp only [text]
  case transformer | learner | element => simp only [Memory.text, hlabel]
  case sequential ps ih | parallel ps ih | vote ps ih | best ps policy ih =>
    rw [texts_eq h.2 fun p hp _ _ => ih p hp]
  case stack t ps settings iht ih =>
    obtain ⟨-, -, -, -, hrest⟩ := h
    rw [texts_eq hrest fun p hp _ _ => ih p hp]
  case bagging t settings ih =>
    obtain ⟨-, hs, hs', hall⟩ := h
    rw [texts_members_eq (by simp [Site.rest, hs, hs']) fun r hr r' hr' =>
      ih (hall r (Site.mem_parts_of_mem_rest hr) r' (Site.mem_parts_of_mem_rest hr'))]

end Plan
end ColumnFlow
