import ColumnFlow.Proofs.Node.Copying

/-!
# Structures of copies

The structure of a tree is drawn from its plan and its names. What a copy will look like is known
before it is made: inner nodes whose names count as false get the default names. A copy is made over
its parts, under a name that any other could stand for.
-/
namespace ColumnFlow

namespace Structure

/-- The name of a leaf or an ensemble; composites show none. -/
def name? : Structure → Option Label
  | .atomic name _ | .ensemble _ name _ | .stack name _ _ | .bagging name _ _ => some name
  | .composite _ _ => none

def rename (name : Label) : Structure → Structure
  | .atomic _ binding => .atomic name binding
  | .composite kind parts => .composite kind parts
  | .ensemble strategy _ parts => .ensemble strategy name parts
  | .stack _ parts stacker => .stack name parts stacker
  | .bagging _ count template => .bagging name count template

theorem name?_rename (name : Label) (a : Structure) :
    (a.rename name).name? = a.name?.map fun _ => name := by
  cases a <;> rfl

mutual

theorem same_refl : ∀ a : Structure, a.same a = true
  | .atomic _ _ => by simp [same]
  | .composite _ parts => by simp [same, sameAll_refl parts]
  | .ensemble _ _ parts => by simp [same, sameAll_refl parts]
  | .stack _ parts stacker => by simp [same, sameAll_refl parts, same_refl stacker]
  | .bagging _ _ template => by simp [same, same_refl template]

theorem sameAll_refl : ∀ parts : List Structure, sameAll parts parts = true
  | [] => rfl
  | a :: rest => by simp [sameAll, same_refl a, sameAll_refl rest]

end

theorem same_name {a b : Structure} (h : a.same b = true) :
    a.name?.map Scalar.key = b.name?.map Scalar.key := by
  cases a <;> cases b <;> simp_all [same, name?]

end Structure

/-- A new node can be given another name. -/
theorem Memory.update_place (m : Memory) (name name' : Label) (parts : List Site) :
    (m.place name parts).2.update (m.place name parts).1.id
      (fun slot => { slot with name := name' }) = (m.place name' parts).2 := by
  have hnew : (m.slots.push (.fresh name))[m.slots.size]? = some (.fresh name) := by simp
  change (m.alloc (.fresh name)).update m.slots.size _ = m.alloc (.fresh name')
  unfold alloc update
  rw [hnew]
  simp [Array.setIfInBounds, Slot.fresh, Array.set_push]

namespace Plan

mutual

/-- The structure of a tree under some names. -/
def draft (name : Plan → Nat → Label) : Plan → Site → Structure
  | .transformer t, s => .atomic (name (.transformer t) s.id) t.binding
  | .learner l, s => .atomic (name (.learner l) s.id) l.binding
  | .element e, s => .atomic (name (.element e) s.id) e.kind
  | .sequential ps, s => .composite "seq" (drafts name ps s.parts)
  | .parallel ps, s => .composite "par" (drafts name ps s.parts)
  | .vote ps, s => .ensemble "vote" (name (.vote ps) s.id) (drafts name ps s.parts)
  | .best ps policy, s => .ensemble "best" (name (.best ps policy) s.id) (drafts name ps s.parts)
  | .stack t ps settings, s =>
    .stack (name (.stack t ps settings) s.id) (drafts name ps s.rest) (draft name t s.first)
  | .bagging t settings, s =>
    .bagging (name (.bagging t settings) s.id) settings.count (draft name t s.first)

def drafts (name : Plan → Nat → Label) : List Plan → List Site → List Structure
  | p :: ps, s :: ss => draft name p s :: drafts name ps ss
  | _, _ => []

end

/-- The name that the copy of a node gets. -/
def nameOfCopy (m : Memory) : Plan → Nat → Label
  | .transformer _, id | .learner _, id | .element _, id => (m.slot id).name
  | p, id => p.copiedName (m.slot id).name

/-- What a copy of a tree looks like. -/
def blueprint (m : Memory) : Plan → Site → Structure := draft (nameOfCopy m)

variable {name name' : Plan → Nat → Label} {m v : Memory} {p t : Plan} {ps : List Plan} {s : Site}
  {ss : List Site} {S : List Nat}

theorem drafts_congr (ih : ∀ p ∈ ps, ∀ s, (∀ q, ∀ i ∈ s.ids, name q i = name' q i) →
      draft name p s = draft name' p s)
    (h : ∀ q, ∀ i ∈ Site.idsOf ss, name q i = name' q i) :
    drafts name ps ss = drafts name' ps ss := by
  induction ps generalizing ss with
  | nil => simp only [drafts]
  | cons p ps ihs =>
    cases ss with
    | nil => simp only [drafts]
    | cons s ss =>
      have hfirst := ih p (by simp) s fun q i hi => h q i (List.mem_append_left _ hi)
      have hrest := ihs (fun q hq => ih q (by simp [hq])) fun q i hi =>
        h q i (List.mem_append_right _ hi)
      simp only [drafts, hfirst, hrest]

/-- A structure depends on the names in its tree only. -/
theorem draft_congr (h : ∀ q, ∀ i ∈ s.ids, name q i = name' q i) :
    draft name p s = draft name' p s := by
  induction p using Plan.induction generalizing s
  case transformer | learner | element =>
    simp only [draft, h _ _ s.id_mem_ids]
  case sequential ps ih | parallel ps ih | vote ps ih | best ps policy ih =>
    have hparts := drafts_congr (fun p hp s => ih p hp) fun q i hi =>
      h q i (Site.mem_ids_of_mem_idsOf_parts hi)
    simp only [draft, hparts, h _ _ s.id_mem_ids]
  case stack t ps settings iht ih =>
    have hparts := drafts_congr (fun p hp s => ih p hp) fun q i hi =>
      h q i (Site.mem_ids_of_mem_idsOf_rest hi)
    have hfirst := iht fun q i hi => h q i (Site.mem_ids_of_mem_first hi)
    simp only [draft, hparts, hfirst, h _ _ s.id_mem_ids]
  case bagging t settings ih =>
    have hfirst := ih fun q i hi => h q i (Site.mem_ids_of_mem_first hi)
    simp only [draft, hfirst, h _ _ s.id_mem_ids]

theorem outlines_eq_drafts
    (ih : ∀ p ∈ ps, ∀ s, outline m p s = draft (fun _ id => (m.slot id).name) p s)
    (ss : List Site) :
    outlines m ps ss = drafts (fun _ id => (m.slot id).name) ps ss := by
  induction ps generalizing ss with
  | nil => simp only [outlines, drafts]
  | cons p ps ihs =>
    cases ss with
    | nil => simp only [outlines, drafts]
    | cons s ss =>
      simp only [outlines, drafts, ih p (by simp) s, ihs (fun q hq => ih q (by simp [hq])) ss]

theorem outline_eq_draft (m : Memory) (p : Plan) (s : Site) :
    outline m p s = draft (fun _ id => (m.slot id).name) p s := by
  induction p using Plan.induction generalizing s
  case transformer | learner | element =>
    simp only [outline, draft, Memory.label]
  case sequential ps ih | parallel ps ih | vote ps ih | best ps policy ih =>
    simp only [outline, draft, Memory.label, outlines_eq_drafts ih]
  case stack t ps settings iht ih =>
    simp only [outline, draft, Memory.label, outlines_eq_drafts ih, iht]
  case bagging t settings ih =>
    simp only [outline, draft, Memory.label, ih]

theorem outline_extend (h : Memory.Extends S m v) (hs : ∀ i ∈ s.ids, i < m.next) :
    outline v p s = outline m p s := by
  rw [outline_eq_draft, outline_eq_draft]
  exact draft_congr fun q i hi => h.name_eq i (hs i hi)

theorem outlines_extend (h : Memory.Extends S m v) (hs : ∀ i ∈ Site.idsOf ss, i < m.next) :
    outlines v ps ss = outlines m ps ss := by
  rw [outlines_eq_drafts fun p _ => outline_eq_draft v p,
    outlines_eq_drafts fun p _ => outline_eq_draft m p]
  exact drafts_congr (fun p _ s => draft_congr) fun q i hi => h.name_eq i (hs i hi)

theorem nameOfCopy_congr {i : Nat} (h : (v.slot i).name = (m.slot i).name) (q : Plan) :
    nameOfCopy v q i = nameOfCopy m q i := by
  cases q <;> simp only [nameOfCopy, h]

theorem blueprint_congr (h : ∀ i ∈ s.ids, (v.slot i).name = (m.slot i).name) :
    blueprint v p s = blueprint m p s :=
  draft_congr fun q i hi => nameOfCopy_congr (h i hi) q

theorem rename_blueprint (m : Memory) (p : Plan) (s : Site) :
    (blueprint m p s).rename (nameOfCopy m p s.id) = blueprint m p s := by
  cases p <;> simp only [blueprint, draft, Structure.rename]

/-! How a copy is made. -/

/-- A copy is made over parts that are laid out before, and would look like the tree under any
name. -/
def Reproduces (p : Plan) : Prop :=
  ∀ (s : Site) (m : Memory), (∀ i ∈ s.ids, i < m.next) →
    ∃ (cs : List Site) (u : Memory), m.Lays (Site.idsOf cs) u ∧
      p.copy s m = u.place (nameOfCopy m p s.id) cs ∧
      ∀ name, outline (u.place name cs).2 p (u.place name cs).1 = (blueprint m p s).rename name

theorem Reproduces.lays (h : Reproduces p) (hs : ∀ i ∈ s.ids, i < m.next) :
    m.Lays (p.copy s m).1.ids (p.copy s m).2 := by
  obtain ⟨cs, u, hlays, hcopy, -⟩ := h s m hs
  rw [hcopy]
  exact hlays.place _

theorem Reproduces.outline_eq (h : Reproduces p) (hs : ∀ i ∈ s.ids, i < m.next) :
    outline (p.copy s m).2 p (p.copy s m).1 = blueprint m p s := by
  obtain ⟨cs, u, -, hcopy, houtline⟩ := h s m hs
  rw [hcopy, houtline, rename_blueprint]

theorem copyAll_reproduces (ih : ∀ p ∈ ps, Reproduces p) (hs : ∀ i ∈ Site.idsOf ss, i < m.next) :
    m.Lays (Site.idsOf (copyAll ps ss m).1) (copyAll ps ss m).2 ∧
      outlines (copyAll ps ss m).2 ps (copyAll ps ss m).1 = drafts (nameOfCopy m) ps ss := by
  induction ps generalizing ss m with
  | nil =>
    simp only [copyAll, outlines, drafts]
    exact ⟨.nil m, trivial⟩
  | cons p ps ihs =>
    cases ss with
    | nil =>
      simp only [copyAll, outlines, drafts]
      exact ⟨.nil m, trivial⟩
    | cons s ss =>
      have hs' : ∀ i ∈ s.ids, i < m.next := fun i hi => hs i (List.mem_append_left _ hi)
      have hss : ∀ i ∈ Site.idsOf ss, i < m.next := fun i hi => hs i (List.mem_append_right _ hi)
      have hlays := (ih p (by simp)).lays hs'
      have hfirst := (ih p (by simp)).outline_eq hs'
      have hext := hlays.extend
      obtain ⟨hlays', hrest⟩ := ihs (fun q hq => ih q (by simp [hq])) fun i hi =>
        Nat.lt_of_lt_of_le (hss i hi) hext.next_le
      -- The rest is copied in a larger memory, where its names are the same.
      have hnames : drafts (nameOfCopy (p.copy s m).2) ps ss = drafts (nameOfCopy m) ps ss :=
        drafts_congr (fun p _ s => draft_congr) fun q i hi =>
          nameOfCopy_congr (hext.name_eq i (hss i hi)) q
      simp only [copyAll, outlines, drafts]
      refine ⟨hlays.append hlays', ?_⟩
      rw [outline_extend hlays'.extend hlays.taken, hfirst, hrest, hnames]
      rfl

theorem times_lays {n : Nat} (ih : Reproduces p) (hs : ∀ i ∈ s.ids, i < m.next) :
    m.Lays (Site.idsOf (Memory.times (fun m => p.copy s m) n m).1)
      (Memory.times (fun m => p.copy s m) n m).2 := by
  induction n generalizing m with
  | zero => exact .nil m
  | succ n ihn =>
    have hlays := ih.lays hs
    exact hlays.append (ihn fun i hi => Nat.lt_of_lt_of_le (hs i hi) hlays.extend.next_le)

theorem reproduces (p : Plan) : Reproduces p := by
  induction p using Plan.induction <;> intro s m hs
  case transformer | learner | element =>
    refine ⟨[], m, .nil m, rfl, fun name => ?_⟩
    simp only [outline, Memory.label_place, blueprint, draft, Structure.rename]
  case sequential ps ih | parallel ps ih | vote ps ih | best ps policy ih =>
    obtain ⟨hlays, hparts⟩ := copyAll_reproduces ih fun i hi =>
      hs i (Site.mem_ids_of_mem_idsOf_parts hi)
    refine ⟨_, _, hlays, by simp only [copy, nameOfCopy], fun name => ?_⟩
    have hext := (copyAll ps s.parts m).2.extends_place name (copyAll ps s.parts m).1
    have houtlines := (outlines_extend hext hlays.taken).trans hparts
    simp only [outline, Memory.label_place, blueprint, draft, Structure.rename]
    rw [← houtlines]
    rfl
  case stack t ps settings iht ih =>
    obtain ⟨hlays, hparts⟩ := copyAll_reproduces ih fun i hi =>
      hs i (Site.mem_ids_of_mem_idsOf_rest hi)
    -- The stacker is copied after the members, though it stands before them.
    rcases hrest : copyAll ps s.rest m with ⟨cs, u⟩
    rw [hrest] at hlays hparts
    have hold : ∀ i ∈ s.first.ids, i < m.next := fun i hi => hs i (Site.mem_ids_of_mem_first hi)
    have hfirst : ∀ i ∈ s.first.ids, i < u.next := fun i hi =>
      Nat.lt_of_lt_of_le (hold i hi) hlays.extend.next_le
    have htop := iht.lays hfirst
    have hstacker := iht.outline_eq hfirst
    rcases hcopy : t.copy s.first u with ⟨c, v⟩
    rw [hcopy] at htop hstacker
    have hboth : m.Lays (Site.idsOf (c :: cs)) v :=
      (hlays.append htop).perm List.perm_append_comm
    refine ⟨c :: cs, v, hboth, by simp only [copy, nameOfCopy, hrest, hcopy], fun name => ?_⟩
    have hext := v.extends_place name (c :: cs)
    have houtlines := (outlines_extend (htop.extend.trans hext (by simp)) hlays.taken).trans hparts
    have houtline := (outline_extend hext htop.taken).trans hstacker
    have hnames : blueprint u t s.first = blueprint m t s.first :=
      blueprint_congr fun i hi => hlays.extend.name_eq i (hold i hi)
    simp only [outline, Memory.label_place]
    change Structure.stack name (outlines (v.place name (c :: cs)).2 ps cs)
      (outline (v.place name (c :: cs)).2 t c) = _
    rw [houtlines, houtline, hnames]
    simp only [blueprint, draft, Structure.rename]
  case bagging t settings ih =>
    have hfirst : ∀ i ∈ s.first.ids, i < m.next := fun i hi => hs i (Site.mem_ids_of_mem_first hi)
    have htop := ih.lays hfirst
    have htemplate := ih.outline_eq hfirst
    rcases hcopy : t.copy s.first m with ⟨c, u⟩
    rw [hcopy] at htop htemplate
    have hlays := times_lays (n := settings.count.toNat) ih htop.taken
    rcases hmembers : Memory.times (fun m => t.copy c m) settings.count.toNat u with ⟨cs, v⟩
    rw [hmembers] at hlays
    refine ⟨c :: cs, v, htop.append hlays, by simp only [copy, nameOfCopy, hcopy, hmembers],
      fun name => ?_⟩
    have hext := hlays.extend.trans (v.extends_place name (c :: cs)) (by simp)
    have houtline := (outline_extend hext htop.taken).trans htemplate
    simp only [outline, Memory.label_place]
    change Structure.bagging name settings.count (outline (v.place name (c :: cs)).2 t c) = _
    rw [houtline]
    simp only [blueprint, draft, Structure.rename]

/-- A copy that is given a name looks like the original under that name. -/
theorem outline_copy_renamed (p : Plan) (hs : ∀ i ∈ s.ids, i < m.next) (name : Label) :
    outline ((p.copy s m).2.update (p.copy s m).1.id fun slot => { slot with name := name }) p
      (p.copy s m).1 = (blueprint m p s).rename name := by
  obtain ⟨cs, u, -, hcopy, houtline⟩ := reproduces p s m hs
  rw [hcopy, Memory.update_place]
  exact houtline name

end Plan
end ColumnFlow
