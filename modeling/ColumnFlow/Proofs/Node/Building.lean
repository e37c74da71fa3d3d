import ColumnFlow.Node.Build
import ColumnFlow.Proofs.Node.Copying
import ColumnFlow.Proofs.Node.Matching

/-!
# Building trees

The constructors build trees with a site for every position. Parts must be nodes of their own; then
so are all positions of what is built from them.
-/
namespace ColumnFlow.Node

/-- A tree with a site for every position of its plan, all of them nodes of their own. Its inner
nodes have names, and the members of a bagging ensemble are named like its template. -/
structure Whole (n : Node) (m : Memory) : Prop where
  alike : n.plan.Alike m m n.site n.site
  holds : m.Holds n.site.ids

variable {n t c : Node} {nodes : List Node} {m m' : Memory} {w : Workspace} {plan : Plan}
  {name : Label} {ss : List Site}

theorem Whole.extend {S : List Nat} (h : n.Whole m) (hm : Memory.Extends S m m') : n.Whole m' :=
  ⟨h.alike.extend h.holds.taken h.holds.taken hm hm, h.holds.extend hm⟩

theorem Whole.copy (h : n.Whole m) (hc : n.copy m = (c, m')) :
    c.plan = n.plan ∧ n.plan.Copies m n.site c.site m' := by
  unfold Node.copy at hc
  rcases hcopy : n.plan.copy n.site m with ⟨site, v⟩
  simp only [hcopy, Prod.mk.injEq] at hc
  obtain ⟨rfl, rfl⟩ := hc
  exact ⟨rfl, Plan.copy_copies h.alike h.holds.taken hcopy⟩

/-- What comes of a constructor: a whole tree whose identities are new or those of its parts, in a
memory that is otherwise as before. -/
structure Built (m : Memory) (parts : List Site) (n : Node) (m' : Memory) : Prop where
  extend : Memory.Extends [] m m'
  whole : n.Whole m'
  ids : ∀ id ∈ n.site.ids, id ∈ Site.idsOf parts ∨ m.next ≤ id

theorem leaf_built (plan : Plan) (hplan : ∀ s, (Node.mk plan s).isLeaf = true) (name : Label)
    (w : Workspace) :
    ∃ n v, leaf plan name w = (.ok n, v) ∧ Built w.memory [] n v.memory := by
  have hnone : w.memory.Lays (Site.idsOf []) w.memory := .nil w.memory
  have hlays := hnone.place name
  refine ⟨_, _, rfl, hlays.extend, ⟨?_, hlays.holds⟩, fun id hid => .inr (hlays.new id hid)⟩
  have hleaf := hplan (.mk 0 [])
  cases plan <;> first | exact rfl | exact absurd hleaf Bool.false_ne_true

theorem isTrue_copiedName (hplan : plan.defaultName ≠ "") (name : Label) :
    (plan.copiedName name).isTrue = true := by
  unfold Plan.copiedName
  split
  · next h => exact h
  · simpa [Scalar.isTrue] using hplan

theorem place_built (plan : Plan) (name : Label) (ss : List Site)
    (hids : w.memory.Holds (Site.idsOf ss)) (hname : plan.defaultName ≠ "")
    (hplan : ∀ v s, Memory.Extends [] w.memory v → s.parts = ss → v.SameName v s s →
      plan.Alike v v s s) :
    ∃ n v, place plan name ss w = (.ok n, v) ∧ Built w.memory ss n v.memory := by
  have hext := w.memory.extends_place (plan.copiedName name) ss
  have hlabel := w.memory.label_place (plan.copiedName name) ss
  refine ⟨_, _, rfl, hext, ⟨?_, ?_⟩, fun id hid => ?_⟩
  · refine hplan _ _ hext rfl ⟨rfl, ?_⟩
    exact (congrArg Scalar.isTrue hlabel).trans (isTrue_copiedName hname name)
  · refine ⟨?_, fun id hid => ?_⟩
    · refine List.nodup_cons.2 ⟨fun hmem => ?_, hids.distinct⟩
      exact Nat.lt_irrefl _ (hids.taken _ hmem)
    · change id < (w.memory.alloc _).next
      rw [Memory.next_alloc]
      rcases List.mem_cons.1 hid with rfl | hid
      · exact Nat.lt_succ_self _
      · exact Nat.lt_succ_of_lt (hids.taken id hid)
  · rcases List.mem_cons.1 hid with rfl | hid
    · exact .inr (Nat.le_refl _)
    · exact .inl hid

theorem each_whole (h : ∀ n ∈ nodes, n.Whole m) :
    Each (Plan.Alike m m) (plans nodes) (sites nodes) (sites nodes) := by
  induction nodes with
  | nil => exact .nil
  | cons n nodes ih => exact .cons (h n (by simp)).alike (ih fun q hq => h q (by simp [hq]))

variable {parts : List Part}

theorem place_nodes_built (hname : plan.defaultName ≠ "")
    (hplan : ∀ v s, v.SameName v s s → Each (Plan.Alike v v) (plans nodes) s.parts s.parts →
      plan.Alike v v s s)
    (hwhole : ∀ n ∈ nodes, n.Whole w.memory)
    (hids : w.memory.Holds (Site.idsOf (sites nodes))) :
    ∃ n v, place plan name (sites nodes) w = (.ok n, v) ∧
      Built w.memory (sites nodes) n v.memory := by
  refine place_built plan name _ hids hname fun v s hv hs hsame => hplan v s hsame ?_
  rw [hs]
  exact each_whole fun n hn => (hwhole n hn).extend hv

theorem children_nodes (kind : String) (h : 2 ≤ nodes.length) :
    Part.children kind (nodes.map Part.node) = .ok nodes := by
  have hnodes : ∀ nodes : List Node,
      Part.nodes (.child kind) (nodes.map Part.node) = .ok nodes := by
    intro nodes
    unfold Part.nodes
    induction nodes with
    | nil => rfl
    | cons n nodes ih =>
      rw [List.map_cons, List.mapM_cons, ih]
      rfl
  unfold Part.children
  rw [List.length_map, if_neg (Nat.not_lt.2 h), hnodes]

theorem children_few (kind : String) (h : ¬ 2 ≤ nodes.length) :
    Part.children kind (nodes.map Part.node) =
      .error (.misuse (.childCount kind nodes.length)) := by
  unfold Part.children
  rw [List.length_map, if_pos (Nat.not_le.1 h)]

/-- A composite that was built has at least two parts, which are as they were. -/
theorem composite_placed {v : Workspace} {kind : String} (make : List Plan → Plan)
    (h : (do
      let nodes ← Part.children kind (nodes.map Part.node)
      place (make (plans nodes)) name (sites nodes) : Work Node) w = (.ok n, v)) :
    2 ≤ nodes.length ∧ ∃ label, n = ⟨make (plans nodes), (w.memory.place label (sites nodes)).1⟩ ∧
      v.memory = (w.memory.place label (sites nodes)).2 := by
  by_cases hlen : 2 ≤ nodes.length
  · rw [children_nodes kind hlen] at h
    obtain ⟨hn, rfl⟩ := Prod.mk.inj h
    obtain rfl := Except.ok.inj hn
    exact ⟨hlen, (make (plans nodes)).copiedName name, rfl, rfl⟩
  · rw [children_few kind hlen] at h
    cases congrArg Prod.fst h

/-- A composite that was built has parts and took the next identity. -/
theorem composite_run {v : Workspace} {kind : String} (make : List Plan → Plan)
    (h : (do
      let nodes ← Part.children kind (nodes.map Part.node)
      place (make (plans nodes)) name (sites nodes) : Work Node) w = (.ok n, v)) :
    nodes ≠ [] ∧ n.plan = make (plans nodes) ∧ n.site = .mk w.memory.next (sites nodes) ∧
      Memory.Extends [] w.memory v.memory ∧ v.memory.next = w.memory.next + 1 := by
  obtain ⟨hlen, label, rfl, hv⟩ := composite_placed make h
  rw [hv]
  exact ⟨List.ne_nil_of_length_pos (Nat.lt_of_lt_of_le Nat.zero_lt_two hlen), rfl, rfl,
    w.memory.extends_place _ (sites nodes), Memory.next_alloc _ _⟩

theorem sequential_built (hparts : Part.children "Sequential" parts = .ok nodes)
    (hwhole : ∀ n ∈ nodes, n.Whole w.memory)
    (hids : w.memory.Holds (Site.idsOf (sites nodes))) :
    ∃ n v, sequential parts name w = (.ok n, v) ∧ Built w.memory (sites nodes) n v.memory := by
  unfold sequential
  rw [hparts]
  refine place_nodes_built (by simp [Plan.defaultName]) (fun v s hname heach => ?_) hwhole hids
  simp only [Plan.Alike, Plan.alikeAll_iff]
  exact ⟨hname, heach⟩

theorem parallel_built (hparts : Part.children "Parallel" parts = .ok nodes)
    (hwhole : ∀ n ∈ nodes, n.Whole w.memory)
    (hids : w.memory.Holds (Site.idsOf (sites nodes))) :
    ∃ n v, parallel parts name w = (.ok n, v) ∧ Built w.memory (sites nodes) n v.memory := by
  unfold parallel
  rw [hparts]
  refine place_nodes_built (by simp [Plan.defaultName]) (fun v s hname heach => ?_) hwhole hids
  simp only [Plan.Alike, Plan.alikeAll_iff]
  exact ⟨hname, heach⟩

theorem vote_built (hparts : Part.members "VoteEnsemble" parts = .ok nodes)
    (hwhole : ∀ n ∈ nodes, n.Whole w.memory)
    (hids : w.memory.Holds (Site.idsOf (sites nodes))) :
    ∃ n v, vote parts name w = (.ok n, v) ∧ Built w.memory (sites nodes) n v.memory := by
  unfold vote
  rw [hparts]
  refine place_nodes_built (by simp [Plan.defaultName]) (fun v s hname heach => ?_) hwhole hids
  simp only [Plan.Alike, Plan.alikeAll_iff]
  exact ⟨hname, heach⟩

theorem best_built {policy : SelectionPolicy}
    (hparts : Part.members "BestLearner" parts = .ok nodes)
    (hwhole : ∀ n ∈ nodes, n.Whole w.memory)
    (hids : w.memory.Holds (Site.idsOf (sites nodes))) :
    ∃ n v, best parts policy name w = (.ok n, v) ∧ Built w.memory (sites nodes) n v.memory := by
  unfold best
  rw [hparts]
  refine place_nodes_built (by simp [Plan.defaultName]) (fun v s hname heach => ?_) hwhole hids
  simp only [Plan.Alike, Plan.alikeAll_iff]
  exact ⟨hname, heach⟩

theorem stack_built {settings : StackSettings} {default : Work Node}
    (hparts : Part.members "StackEnsemble" parts = .ok nodes)
    (hwhole : ∀ n ∈ nodes, n.Whole w.memory) (htop : t.Whole w.memory)
    (hids : w.memory.Holds (Site.idsOf (t.site :: sites nodes))) :
    ∃ n v, stack parts (some (.node t)) default settings name w = (.ok n, v) ∧
      Built w.memory (t.site :: sites nodes) n v.memory := by
  unfold stack
  rw [hparts]
  refine place_built _ name _ hids (by simp [Plan.defaultName]) fun v s hv hs hname => ?_
  have hfirst : s.first = t.site := by simp [Site.first, hs]
  have hrest : s.rest = sites nodes := by simp [Site.rest, hs]
  simp only [Plan.Alike, Plan.alikeAll_iff, hs, hfirst, hrest]
  exact ⟨hname, by simp, by simp, (htop.extend hv).alike,
    each_whole fun n hn => (hwhole n hn).extend hv⟩

/-- The members of a bagging ensemble are made with it. -/
theorem bagging_built {settings : BaggingSettings} (hshare : checkShare settings.share = .ok ())
    (hcount : 2 ≤ settings.count.toNat) (ht : t.Whole w.memory) :
    ∃ n v, bagging (.node t) settings name w = (.ok n, v) ∧
      Built w.memory [t.site] n v.memory := by
  rcases hmembers : Memory.times (fun m => t.plan.copy t.site m) settings.count.toNat w.memory with
    ⟨cs, v⟩
  obtain ⟨hlays, hlen, hall⟩ := Plan.times_copies (fun c m v => Plan.copy_copies) ht.alike
    ht.holds.taken hmembers
  obtain ⟨n, v', hplace, hbuilt⟩ := place_built (w := { w with memory := v })
    (.bagging t.plan settings) name (t.site :: cs) (hlays.holds_append ht.holds)
    (by simp [Plan.defaultName]) fun v' s hv hs hname => by
      have hlike : ∀ r ∈ t.site :: cs, t.plan.Alike v' v' t.site r := by
        intro r hr
        rcases List.mem_cons.1 hr with rfl | hr
        · exact ((ht.extend hlays.extend).extend hv).alike
        · refine (hall r hr).extend (ht.extend hlays.extend).holds.taken (fun id hid => ?_) hv hv
          exact hlays.taken id (Site.mem_idsOf.2 ⟨r, hr, hid⟩)
      simp only [Plan.Alike, hs]
      exact ⟨hname, by simp [hlen], by simp [hlen], fun r hr r' hr' =>
        (hlike r hr).symm.trans (hlike r' hr')⟩
  refine ⟨n, v', ?_, hlays.extend.trans hbuilt.extend (by simp), hbuilt.whole, fun id hid => ?_⟩
  · unfold bagging
    rw [hshare, Work.run_ok_bind]
    dsimp only
    rw [Work.run_placing_bind, hmembers, if_neg (Nat.not_lt.2 hcount)]
    exact hplace
  · rcases hbuilt.ids id hid with hid | hid
    · rcases List.mem_append.1 hid with hid | hid
      · exact .inl (by simpa [Site.idsOf] using hid)
      · exact .inr (hlays.new id hid)
    · exact .inr (Nat.le_trans hlays.extend.next_le hid)

end ColumnFlow.Node
