import ColumnFlow.Proofs.Node.Directory
import ColumnFlow.Proofs.Registry.Compilation

/-!
# Fresh trees

Every compilation takes new identities for all that it builds: one for every position of the tree,
all of them blank. Nothing is asked of the prototypes but that they are there. They may be of any
kind, fitted or not, and share parts with each other.
-/
namespace ColumnFlow

theorem Memory.Lays.rename {m v : Memory} {ids : List Nat} {i : Nat} (h : m.Lays ids v)
    (hi : i ∈ ids) (name : Label) :
    m.Lays ids (v.update i fun slot => { slot with name := name }) where
  extend := h.extend.update_new (h.new i hi) _
  distinct := h.distinct
  new := h.new
  taken := by
    rw [next_update]
    exact h.taken
  blank j hj := by
    have hblank := h.blank j hj
    by_cases hji : j = i
    · rw [hji] at hblank ⊢
      rw [slot_update_self (h.taken i hi), hblank]
      rfl
    · rw [slot_update_of_ne hji]
      exact hblank

namespace Registry
open Node

def ids (r : Registry) : List Nat := r.prototypes.flatMap fun e => e.2.site.ids

/-- All prototypes are nodes of a memory. -/
def InUse (r : Registry) (m : Memory) : Prop := ∀ i ∈ r.ids, i < m.next

instance (r : Registry) (m : Memory) : Decidable (r.InUse m) :=
  inferInstanceAs (Decidable (∀ i ∈ r.ids, i < m.next))

variable {r : Registry} {m m' : Memory} {w v : Workspace} {p n : Node} {x : String} {e : Expr}
  {es : List Expr} {S : List Nat}

theorem ids_of_lookup (h : r.prototypes.lookup x = some p) : p.site.ids ⊆ r.ids := fun _ hi =>
  List.mem_flatMap.2 ⟨(x, p), mem_of_lookup h, hi⟩

theorem InUse.extend (h : r.InUse m) (hm : Memory.Extends S m m') : r.InUse m' := fun i hi =>
  Nat.lt_of_lt_of_le (h i hi) hm.next_le

theorem create_lays (hr : r.InUse w.memory) (h : r.create (.text x) w = (.ok n, v)) :
    w.memory.Lays n.site.ids v.memory := by
  rw [create, find] at h
  dsimp only at h
  cases hx : r.prototypes.lookup x with
  | none =>
    rw [hx] at h
    cases congrArg Prod.fst h
  | some p =>
    rw [hx] at h
    obtain ⟨hn, rfl⟩ := Prod.mk.inj h
    obtain rfl := Except.ok.inj hn
    have hlays := (Plan.reproduces p.plan).lays fun i hi => hr i (ids_of_lookup hx hi)
    exact hlays.rename (Site.id_mem_ids _) (.text x)

theorem buildAll_lays
    (ih : ∀ e ∈ es, ∀ {w v : Workspace} {n}, r.InUse w.memory → r.build e w = (.ok n, v) →
      w.memory.Lays n.site.ids v.memory)
    (hr : r.InUse w.memory) {parts : List Part} (h : r.buildAll es w = (.ok parts, v)) :
    ∃ nodes, parts = nodes.map Part.node ∧ w.memory.Lays (Site.idsOf (sites nodes)) v.memory := by
  induction es generalizing w v parts with
  | nil =>
    obtain ⟨hparts, rfl⟩ := Prod.mk.inj h
    obtain rfl := Except.ok.inj hparts
    exact ⟨[], rfl, .nil _⟩
  | cons e es ihs =>
    rw [buildAll] at h
    obtain ⟨n, u, hn, h⟩ := Work.ok_of_bind h
    obtain ⟨rest, u', hrest, hpure⟩ := Work.ok_of_bind h
    obtain ⟨hparts, rfl⟩ := Prod.mk.inj hpure
    obtain rfl := Except.ok.inj hparts
    have hfirst := ih e List.mem_cons_self hr hn
    obtain ⟨nodes, rfl, hnodes⟩ :=
      ihs (fun e he => ih e (List.mem_cons_of_mem _ he)) (hr.extend hfirst.extend) hrest
    exact ⟨n :: nodes, rfl, hfirst.append hnodes⟩

theorem composite_lays {nodes : List Node} {u : Workspace} {kind : String} {name : Label}
    (make : List Plan → Plan) (hnodes : m.Lays (Site.idsOf (sites nodes)) u.memory)
    (h : (do
      let nodes ← Part.children kind (nodes.map Part.node)
      place (make (plans nodes)) name (sites nodes) : Work Node) u = (.ok n, v)) :
    m.Lays n.site.ids v.memory := by
  obtain ⟨-, label, rfl, hv⟩ := composite_placed make h
  rw [hv]
  exact hnodes.place label

theorem build_lays (hr : r.InUse w.memory) (h : r.build e w = (.ok n, v)) :
    w.memory.Lays n.site.ids v.memory := by
  induction e using Expr.induction generalizing w v n with
  | identifier x i =>
    rw [build] at h
    exact create_lays hr h
  | chain es ih =>
    rw [build] at h
    obtain ⟨parts, u, hparts, h⟩ := Work.ok_of_bind h
    obtain ⟨nodes, rfl, hnodes⟩ := buildAll_lays ih hr hparts
    exact composite_lays .sequential hnodes h
  | group es ih =>
    rw [build] at h
    obtain ⟨parts, u, hparts, h⟩ := Work.ok_of_bind h
    obtain ⟨nodes, rfl, hnodes⟩ := buildAll_lays ih hr hparts
    exact composite_lays .parallel hnodes h
  | other es ih =>
    rw [build] at h
    obtain ⟨parts, u, -, h⟩ := Work.ok_of_bind h
    cases congrArg Prod.fst h

theorem compile_lays {input : ExpressionInput} (hr : r.InUse w.memory)
    (h : r.compile input w = (.ok n, v)) : w.memory.Lays n.site.ids v.memory := by
  obtain ⟨e, -, hbuild⟩ := build_of_compile h
  exact build_lays hr hbuild

end Registry

namespace Node

/-- A node and everything that it holds on to, at any depth. -/
inductive Contains : Node → Node → Prop
  | self (n : Node) : Contains n n
  | inside {n q r : Node} : q ∈ n.inside → Contains q r → Contains n r

variable {n q : Node} {m v : Memory}

theorem Contains.ids (h : n.Contains q) : q.site.ids ⊆ n.site.ids := by
  induction h with
  | self n => exact List.Subset.refl _
  | inside hq _ ih => exact fun i hi => ids_of_mem_inside hq (ih hi)

theorem Contains.isFitted_eq_false (h : n.Contains q) (hn : m.Lays n.site.ids v) :
    q.isFitted v = false :=
  Plan.isFitted_of_lays hn (h.ids q.site.id_mem_ids)

end Node
end ColumnFlow
