import ColumnFlow.Proofs.Frame.Within
import ColumnFlow.Proofs.Node.Building
import ColumnFlow.Proofs.Node.Directory

/-!
# Reachable nodes

Nodes are made from nothing, from nodes that are known and as copies of them; known nodes are fitted
again and again, with and without success, cross-validated and renamed. A node may become a part of
any number of trees. Whatever was done, there is a directory of all known nodes, and everything that
was learned is what the plans in it can learn.
-/
namespace ColumnFlow

namespace Part

variable {P : Node → Prop} {parts : List Part} {found : List Node} {kind : String}

def All (P : Node → Prop) (parts : List Part) : Prop := ∀ n, .node n ∈ parts → P n

theorem All.nodes {misplaced : String → Misplaced} (h : All P parts)
    (hnodes : Part.nodes misplaced parts = .ok found) : ∀ n ∈ found, P n := by
  have hall := forall₂_of_mapM hnodes
  clear hnodes
  induction hall with
  | nil => exact fun n hn => nomatch hn
  | @cons part n parts found hpart _ ih =>
    have hrest := ih fun q hq => h q (List.mem_cons_of_mem _ hq)
    cases part with
    | value kind => cases hpart
    | node q =>
      obtain rfl := Except.ok.inj hpart
      intro r hr
      rcases List.mem_cons.1 hr with rfl | hr
      · exact h r List.mem_cons_self
      · exact hrest r hr

theorem All.children (h : All P parts) (hnodes : Part.children kind parts = .ok found) :
    ∀ n ∈ found, P n := by
  rw [Part.children] at hnodes
  split at hnodes
  · cases hnodes
  · exact h.nodes hnodes

theorem All.members (h : All P parts) (hnodes : Part.members kind parts = .ok found) :
    ∀ n ∈ found, P n := by
  rw [Part.members] at hnodes
  split at hnodes
  · cases hnodes
  · exact h.nodes hnodes

theorem All.operands {flatten : Plan → Bool} {flat : List Part} (h : All P parts)
    (hchildren : ∀ n, P n → ∀ c ∈ n.children, P c)
    (hflat : Node.operands flatten parts = .ok flat) : All P flat := by
  obtain ⟨lists, hlists, hjoined⟩ := Except.exists_of_bind hflat
  obtain rfl := Except.ok.inj hjoined
  have hall := forall₂_of_mapM hlists
  clear hlists hjoined hflat
  induction hall with
  | nil => exact fun n hn => nomatch hn
  | @cons part list parts lists hpart _ ih =>
    have hrest := ih fun q hq => h q (List.mem_cons_of_mem _ hq)
    cases part with
    | value kind => cases hpart
    | node q =>
      obtain rfl := Except.ok.inj hpart
      have hq := h q List.mem_cons_self
      intro r hr
      rw [List.flatten_cons, List.mem_append] at hr
      rcases hr with hr | hr
      · split at hr
        · obtain ⟨c, hc, hcr⟩ := List.mem_map.1 hr
          obtain rfl := Part.node.inj hcr
          exact hchildren q hq c hc
        · obtain rfl := Part.node.inj (List.mem_singleton.1 hr)
          exact hq
      · exact hrest r hr

end Part

namespace Directory

variable {d : Directory} {w : Workspace} {nodes : List Node} {plan : Plan} {name : Label}
  {x : Work Node}

/-- Making a node enters it in the directory; if that fails, the directory is at least kept. -/
def Makes (d : Directory) (x : Work Node) (w : Workspace) : Prop :=
  ∃ d', d.Grows w.memory d' (x w).2.memory ∧ ∀ n, (x w).1 = .ok n → d'.Houses (x w).2.memory n

theorem makes_throw (hd : d.Fits w.memory) (e : Failure) : d.Makes (throw e) w :=
  ⟨d, .refl hd, fun _ h => nomatch h⟩

theorem makes_bind {f : Node → Work Node} (hx : d.Makes x w)
    (hf : ∀ (d' : Directory) (v : Workspace) (n : Node), d.Grows w.memory d' v.memory →
      d'.Houses v.memory n → d'.Makes (f n) v) : d.Makes (x >>= f) w := by
  obtain ⟨d', hd', hmade⟩ := hx
  rw [Makes, Work.run_bind]
  rcases hrun : x w with ⟨e | n, v⟩ <;> rw [hrun] at hd' hmade
  · exact ⟨d', hd', fun _ h => nomatch h⟩
  · obtain ⟨d'', hd'', hmade'⟩ := hf d' v n hd' (hmade n rfl)
    exact ⟨d'', hd'.trans hd'', hmade'⟩

theorem makes_place {sites : List Site} (hd : d.Fits w.memory)
    (hids : ∀ i ∈ Site.idsOf sites, i < w.memory.next)
    (hinside : ∀ q ∈ (Node.mk plan (.mk w.memory.next sites)).inside, d.Houses w.memory q) :
    d.Makes (Node.place plan name sites) w := by
  refine ⟨_, hd.place plan (plan.copiedName name) sites, fun n hn => ?_⟩
  obtain rfl := Except.ok.inj hn
  exact hd.houses_place plan _ hids hinside

theorem makes_leaf (hplan : ∀ s, (Node.mk plan s).isLeaf = true) (hd : d.Fits w.memory) :
    d.Makes (Node.leaf plan name) w := by
  refine ⟨_, hd.place plan name [], fun n hn => ?_⟩
  obtain rfl := Except.ok.inj hn
  refine hd.houses_place plan name (fun i hi => nomatch hi) fun q hq => ?_
  have hleaf := hplan (.mk w.memory.next [])
  cases plan <;> first | exact absurd hleaf Bool.false_ne_true | cases hq

theorem makes_copy {n : Node} (hd : d.Fits w.memory) (hn : d.Houses w.memory n) :
    d.Makes (Work.placing n.copy) w := by
  obtain ⟨d', hd', hcopy⟩ := copy_houses n.plan n.site w.memory d hd hn.taken
  refine ⟨d', hd', fun c hc => ?_⟩
  obtain rfl := Except.ok.inj hc
  exact hcopy

theorem zipParts_nodes (nodes : List Node) :
    Node.zipParts (Node.plans nodes) (Node.sites nodes) = nodes := by
  induction nodes with
  | nil => rfl
  | cons n nodes ih => exact congrArg (n :: ·) ih

theorem taken_sites (h : ∀ n ∈ nodes, d.Houses w.memory n) :
    ∀ i ∈ Site.idsOf (Node.sites nodes), i < w.memory.next := by
  intro i hi
  obtain ⟨s, hs, hi⟩ := Site.mem_idsOf.1 hi
  obtain ⟨n, hn, rfl⟩ := List.mem_map.1 hs
  exact (h n hn).taken i hi

theorem makes_over {checked : Except Failure (List Node)} (make : List Plan → Plan)
    (hmake : ∀ ps s, (Node.mk (make ps) s).inside = Node.zipParts ps s.parts)
    (hd : d.Fits w.memory)
    (hchecked : ∀ nodes, checked = .ok nodes → ∀ n ∈ nodes, d.Houses w.memory n) :
    d.Makes (do
      let nodes ← checked
      Node.place (make (Node.plans nodes)) name (Node.sites nodes)) w := by
  cases checked with
  | error e => exact makes_throw hd e
  | ok nodes =>
    have hnodes := hchecked nodes rfl
    change d.Makes (Node.place (make (Node.plans nodes)) name (Node.sites nodes)) w
    refine makes_place hd (taken_sites hnodes) fun q hq => hnodes q ?_
    rw [hmake] at hq
    change q ∈ Node.zipParts (Node.plans nodes) (Node.sites nodes) at hq
    rwa [zipParts_nodes] at hq

variable {parts : List Part}

theorem makes_stack {stacker : Option Part} {default : Work Node} {settings : StackSettings}
    (hd : d.Fits w.memory) (hparts : Part.All (d.Houses w.memory) parts)
    (hstacker : ∀ n, stacker = some (.node n) → d.Houses w.memory n)
    (hdefault : d.Makes default w) :
    d.Makes (Node.stack parts stacker default settings name) w := by
  unfold Node.stack
  cases hnodes : Part.members "StackEnsemble" parts with
  | error e => exact makes_throw hd e
  | ok nodes =>
    have hnodes := hparts.members hnodes
    -- Once there is a stacker, the stack is made in the memory that holds it.
    have hover : ∀ (d' : Directory) (v : Workspace) (t : Node), d.Grows w.memory d' v.memory →
        d'.Houses v.memory t → d'.Makes (Node.place (.stack t.plan (Node.plans nodes) settings) name
          (t.site :: Node.sites nodes)) v := by
      intro d' v t hd' ht
      have hmembers : ∀ n ∈ nodes, d'.Houses v.memory n := fun n hn => (hnodes n hn).grow hd'
      refine makes_place hd'.fits (taken_cons ht.taken (taken_sites hmembers)) fun q hq => ?_
      rcases List.mem_cons.1 hq with rfl | hq
      · exact ht
      · change q ∈ Node.zipParts (Node.plans nodes) (Node.sites nodes) at hq
        rw [zipParts_nodes] at hq
        exact hmembers q hq
    cases stacker with
    | some part =>
      cases part with
      | value kind => exact makes_throw hd _
      | node t => exact hover d w t (.refl hd) (hstacker t rfl)
    | none => exact makes_bind hdefault hover

theorem makes_bagging {template : Part} {settings : BaggingSettings} (hd : d.Fits w.memory)
    (htemplate : ∀ n, template = .node n → d.Houses w.memory n) :
    d.Makes (Node.bagging template settings name) w := by
  unfold Node.bagging
  cases Node.checkShare settings.share with
  | error e => exact makes_throw hd e
  | ok _ =>
  cases template with
  | value kind =>
    by_cases hcount : settings.count.toNat = 0
    · simp only [hcount]
      exact makes_throw hd _
    · simp only [hcount]
      exact makes_throw hd _
  | node t =>
    have ht := htemplate t rfl
    obtain ⟨d', hd', hmembers⟩ := times_houses (k := settings.count.toNat)
      (copy_houses t.plan t.site) hd ht.taken
    rw [Makes, Work.run_ok_bind]
    dsimp only
    rw [Work.run_placing_bind]
    rcases hcopies : Memory.times (fun m => t.plan.copy t.site m) settings.count.toNat w.memory
      with ⟨cs, m⟩
    rw [hcopies] at hd' hmembers
    by_cases hcount : settings.count.toNat < 2
    · -- The members are left behind.
      rw [if_pos hcount]
      exact ⟨d', hd', fun _ h => nomatch h⟩
    rw [if_neg hcount]
    have hover : d'.Makes (Node.place (.bagging t.plan settings) name (t.site :: cs))
        { w with memory := m } := by
      have ht := ht.grow hd'
      refine makes_place hd'.fits (taken_cons ht.taken (taken_copies hmembers)) fun q hq => ?_
      rcases List.mem_cons.1 hq with rfl | hq
      · exact ht
      · obtain ⟨c, hc, rfl⟩ := List.mem_map.1 hq
        exact hmembers c hc
    obtain ⟨d'', hd'', hmade⟩ := hover
    exact ⟨d'', hd'.trans hd'', hmade⟩

end Directory

/-- The ways to make a node out of nodes that are known. -/
inductive Builds (nodes : List Node) : Work Node → Prop
  | leaf {plan : Plan} (hplan : ∀ s, (Node.mk plan s).isLeaf = true) (name : Label) :
    Builds nodes (Node.leaf plan name)
  | sequential {parts : List Part} (hparts : Part.All (· ∈ nodes) parts) (name : Label) :
    Builds nodes (Node.sequential parts name)
  | parallel {parts : List Part} (hparts : Part.All (· ∈ nodes) parts) (name : Label) :
    Builds nodes (Node.parallel parts name)
  | vote {parts : List Part} (hparts : Part.All (· ∈ nodes) parts) (name : Label) :
    Builds nodes (Node.vote parts name)
  | best {parts : List Part} (hparts : Part.All (· ∈ nodes) parts) (policy : SelectionPolicy)
    (name : Label) : Builds nodes (Node.best parts policy name)
  | stack {parts : List Part} {stacker : Option Part} {default : Work Node}
    (hparts : Part.All (· ∈ nodes) parts) (hstacker : ∀ n, stacker = some (.node n) → n ∈ nodes)
    (hdefault : Builds nodes default) (settings : StackSettings) (name : Label) :
    Builds nodes (Node.stack parts stacker default settings name)
  | bagging {template : Part} (htemplate : ∀ n, template = .node n → n ∈ nodes)
    (settings : BaggingSettings) (name : Label) : Builds nodes (Node.bagging template settings name)
  | andThen {a : Node} {b : Part} (ha : a ∈ nodes) (hb : ∀ n, b = .node n → n ∈ nodes) :
    Builds nodes (a.andThen b)
  | alongside {a : Node} {b : Part} (ha : a ∈ nodes) (hb : ∀ n, b = .node n → n ∈ nodes) :
    Builds nodes (a.alongside b)
  | copy {n : Node} (hn : n ∈ nodes) : Builds nodes (Work.placing n.copy)

/-- What is known, and in what memory it stands, after any number of steps. -/
inductive Reached : List Node → Memory → Prop
  | start : Reached [] .empty
  | build {nodes : List Node} {w : Workspace} {x : Work Node} {n : Node} :
    Reached nodes w.memory → Builds nodes x → (x w).1 = .ok n →
      Reached (n :: nodes) (x w).2.memory
  | unbuilt {nodes : List Node} {w : Workspace} {x : Work Node} {e : Failure} :
    Reached nodes w.memory → Builds nodes x → (x w).1 = .error e → Reached nodes (x w).2.memory
  | part {nodes : List Node} {m : Memory} {n q : Node} :
    Reached nodes m → n ∈ nodes → q ∈ n.inside → Reached (q :: nodes) m
  | fit {nodes : List Node} {w : Workspace} {n : Node} (env : Surroundings) (X y : Data)
    (door : Door) : Reached nodes w.memory → n ∈ nodes →
      Reached nodes (door.fit env n X y w).2.memory
  | validate {nodes : List Node} {w : Workspace} {n : Node} (env : Surroundings) (v : Validator)
    (X y : Data) (expression : Value) (j : Journal) : Reached nodes w.memory → n ∈ nodes →
      Reached nodes (v.run (n.trainable env) X y expression j w).2.memory
  | rename {nodes : List Node} {w : Workspace} {n : Node} (name : Label) :
    Reached nodes w.memory → n ∈ nodes → Reached nodes (Work.setName n.site name w).2.memory

namespace Directory

variable {d : Directory} {w : Workspace} {nodes : List Node} {x : Work Node} {m : Memory} {n : Node}

theorem operands_housed {a : Node} {b : Part} {flatten : Plan → Bool} {flat : List Part}
    (ha : d.Houses m a) (hb : ∀ n, b = .node n → d.Houses m n)
    (hflat : Node.operands flatten [.node a, b] = .ok flat) : Part.All (d.Houses m) flat := by
  refine Part.All.operands (fun n hn => ?_) (fun n hn c hc => ?_) hflat
  · rcases List.mem_cons.1 hn with hn | hn
    · obtain rfl := Part.node.inj hn
      exact ha
    · exact hb n (List.mem_singleton.1 hn).symm
  · exact hn.inside (Node.mem_inside_of_mem_parts (Node.mem_parts_of_mem_children hc))

theorem makes_of_builds (hx : Builds nodes x) (hd : d.Fits w.memory)
    (hnodes : ∀ n ∈ nodes, d.Houses w.memory n) : d.Makes x w := by
  have hall : ∀ {parts : List Part}, Part.All (· ∈ nodes) parts →
      Part.All (d.Houses w.memory) parts := fun h n hn => hnodes n (h n hn)
  induction hx with
  | leaf hplan name => exact makes_leaf hplan hd
  | sequential hparts name =>
    exact makes_over .sequential (fun _ _ => rfl) hd fun _ => (hall hparts).children
  | parallel hparts name =>
    exact makes_over .parallel (fun _ _ => rfl) hd fun _ => (hall hparts).children
  | vote hparts name => exact makes_over .vote (fun _ _ => rfl) hd fun _ => (hall hparts).members
  | best hparts policy name =>
    exact makes_over (.best · policy) (fun _ _ => rfl) hd fun _ => (hall hparts).members
  | stack hparts hstacker _ settings name ih =>
    exact makes_stack hd (hall hparts) (fun n hn => hnodes n (hstacker n hn)) ih
  | bagging htemplate settings name =>
    exact makes_bagging hd fun n hn => hnodes n (htemplate n hn)
  | @andThen a b ha hb =>
    unfold Node.andThen
    cases hflat : Node.operands Node.isSequential [.node a, b] with
    | error e => exact makes_throw hd e
    | ok flat =>
      have hparts := operands_housed (hnodes a ha) (fun n hn => hnodes n (hb n hn)) hflat
      exact makes_over .sequential (fun _ _ => rfl) hd fun _ => hparts.children
  | @alongside a b ha hb =>
    unfold Node.alongside
    cases hflat : Node.operands Node.isParallel [.node a, b] with
    | error e => exact makes_throw hd e
    | ok flat =>
      have hparts := operands_housed (hnodes a ha) (fun n hn => hnodes n (hb n hn)) hflat
      exact makes_over .parallel (fun _ _ => rfl) hd fun _ => hparts.children
  | copy hn => exact makes_copy hd (hnodes _ hn)

end Directory

/-- There always is a directory of the known nodes, and what was learned fits it. -/
theorem Reached.exists_directory {nodes : List Node} {m : Memory} (h : Reached nodes m) :
    ∃ d : Directory, d.Fits m ∧ ∀ n ∈ nodes, d.Houses m n := by
  induction h with
  | start =>
    refine ⟨fun _ => default, fun i hi => ?_, fun n hn => ?_⟩
    · exact absurd hi (Nat.not_lt_zero i)
    · exact absurd hn List.not_mem_nil
  | @build nodes w x n _ hx hn ih =>
    obtain ⟨d, hd, hnodes⟩ := ih
    obtain ⟨d', hd', hmade⟩ := Directory.makes_of_builds hx hd hnodes
    refine ⟨d', hd'.fits, fun q hq => ?_⟩
    rcases List.mem_cons.1 hq with rfl | hq
    · exact hmade q hn
    · exact (hnodes q hq).grow hd'
  | @unbuilt nodes w x e _ hx _ ih =>
    obtain ⟨d, hd, hnodes⟩ := ih
    obtain ⟨d', hd', -⟩ := Directory.makes_of_builds hx hd hnodes
    exact ⟨d', hd'.fits, fun q hq => (hnodes q hq).grow hd'⟩
  | @part nodes m n q _ hn hq ih =>
    obtain ⟨d, hd, hnodes⟩ := ih
    refine ⟨d, hd, fun r hr => ?_⟩
    rcases List.mem_cons.1 hr with rfl | hr
    · exact (hnodes n hn).inside hq
    · exact hnodes r hr
  | @fit nodes w n env X y door _ hn ih =>
    obtain ⟨d, hd, hnodes⟩ := ih
    have hfit := Door.fit_keeps (fun F y => d.fit_keeps env n (hnodes n hn).listed
      (hnodes n hn).taken F y) X y door w ⟨Nat.le_refl _, hd⟩
    obtain ⟨d', hd'⟩ := hfit.grows
    exact ⟨d', hd'.fits, fun q hq => (hnodes q hq).grow hd'⟩
  | @validate nodes w n env v X y expression j _ hn ih =>
    obtain ⟨d, hd, hnodes⟩ := ih
    have hrun : Work.Keeps (d.FitsBelow w.memory.next)
        (v.run (n.trainable env) X y expression j) :=
      Plan.run_keeps (Directory.FitsBelow.lasting d w.memory.next) fun m hm i hi =>
        Nat.lt_of_lt_of_le ((hnodes n hn).taken i hi) hm.room
    obtain ⟨d', hd'⟩ := (hrun w ⟨Nat.le_refl _, hd⟩).grows
    exact ⟨d', hd'.fits, fun q hq => (hnodes q hq).grow hd'⟩
  | @rename nodes w n name _ hn ih =>
    obtain ⟨d, hd, hnodes⟩ := ih
    have hname : d.FitsBelow w.memory.next (Work.setName n.site name w).2.memory :=
      Directory.FitsBelow.update ⟨Nat.le_refl _, hd⟩ fun _ h => h
    obtain ⟨d', hd'⟩ := hname.grows
    exact ⟨d', hd'.fits, fun q hq => (hnodes q hq).grow hd'⟩

theorem Reached.learns {nodes : List Node} {m : Memory} (h : Reached nodes m) {n : Node}
    (hn : n ∈ nodes) : n.Throughout fun q => q.plan.Learns (m.slot q.site.id).learned := by
  obtain ⟨d, hd, hnodes⟩ := h.exists_directory
  obtain ⟨hlisted, htaken⟩ := hnodes n hn
  clear hn
  induction hlisted with
  | @node n hself _ ih =>
    refine .node ?_ fun q hq => ?_
    · rw [← hself]
      exact hd _ (htaken _ n.site.id_mem_ids)
    · exact ih q (Node.mem_inside_of_mem_parts hq) fun i hi =>
        htaken i (Node.ids_of_mem_parts hq hi)

end ColumnFlow
