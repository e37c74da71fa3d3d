import ColumnFlow.Proofs.Node.Namesakes
import ColumnFlow.Proofs.Registry.Fresh

/-!
# Compilation side by side

What comes of an expression depends on the prototypes alone. In two memories that hold the same
prototypes, whatever else they hold, an expression is refused for one reason or gives one tree,
under identities that are the next ones in each memory.
-/
namespace ColumnFlow

namespace Memory

variable {a b : Nat} {m m' v v' : Memory} {c c' : Site}

theorem Shifted.update (h : Shifted a b m m') {i : Nat} (ha : a ≤ i) (hi : i < m.next)
    (g : Slot → Slot) : Shifted a b (m.update i g) (m'.update (shift a b i) g) where
  le := by
    rw [next_update]
    exact h.le
  next_eq := by
    rw [next_update, next_update]
    exact h.next_eq
  slot_eq j hj hlt := by
    rw [next_update] at hlt
    have hslot := h.slot_eq j hj hlt
    by_cases hji : j = i
    · rw [hji] at hslot ⊢
      rw [slot_update_self hi, slot_update_self (h.lt_next hi ha), hslot]
    · have hne : shift a b j ≠ shift a b i := by
        unfold shift
        omega
      rw [slot_update_of_ne hji, slot_update_of_ne hne, hslot]

theorem Copied.rename (h : Copied a b m m' [c] [c'] v v') (hm : Shifted a b m m') (name : Label) :
    Copied a b m m' [c] [c'] (v.update c.id fun slot => { slot with name := name })
      (v'.update c'.id fun slot => { slot with name := name }) := by
  have hmem : c.id ∈ Site.idsOf [c] := Site.mem_idsOf.2 ⟨c, List.mem_cons_self, c.id_mem_ids⟩
  have hnew := h.new c.id hmem
  have hc' : c'.id = shift a b c.id := by
    rw [List.singleton_inj.1 h.sites, Site.id_rename]
  have hnew' : m'.next ≤ c'.id := by
    have hnext := hm.next_eq
    rw [hc', shift]
    omega
  refine ⟨h.sites, h.extend.update_new hnew _, h.extend'.update_new hnew' _, ?_, h.new, ?_⟩
  · rw [hc']
    exact h.shifted.update (Nat.le_trans hm.le hnew) (h.taken c.id hmem) _
  · rw [next_update]
    exact h.taken

end Memory

namespace Registry
open Node Memory

/-- Two new trees of one plan, under identities that are the same but for a shift. -/
def Twins (a b : Nat) (m m' : Memory) (n n' : Node) (v v' : Memory) : Prop :=
  n'.plan = n.plan ∧ Copied a b m m' [n.site] [n'.site] v v'

def AllTwins (a b : Nat) (m m' : Memory) (parts parts' : List Part) (v v' : Memory) : Prop :=
  ∃ nodes nodes', parts = nodes.map Part.node ∧ parts' = nodes'.map Part.node ∧
    plans nodes' = plans nodes ∧ Copied a b m m' (sites nodes) (sites nodes') v v'

variable {r : Registry} {a b : Nat} {m m' : Memory} {w w' : Workspace} {e : Expr} {es : List Expr}

theorem create_twins (hc : Copying id r.ids a b w.memory w'.memory) (x : String) :
    Work.Matched (Twins a b w.memory w'.memory) (Kept [] [] w.memory w'.memory)
      (r.create (.text x) w) (r.create (.text x) w') := by
  rw [create, find]
  dsimp only
  cases hx : r.prototypes.lookup x with
  | none => exact ⟨rfl, .refl _ _ _ _⟩
  | some p =>
    have hcopied := Plan.copy_rename a b p.plan id p.site w.memory w'.memory
      (hc.mono (ids_of_lookup hx))
    rw [Site.rename_eq_self (f := id) fun _ => rfl] at hcopied
    exact ⟨rfl, hcopied.rename hc.shifted (.text x)⟩

theorem buildAll_twins
    (ih : ∀ e ∈ es, ∀ {w w' : Workspace}, Copying id r.ids a b w.memory w'.memory →
      Work.Matched (Twins a b w.memory w'.memory) (Kept [] [] w.memory w'.memory) (r.build e w)
        (r.build e w'))
    (hc : Copying id r.ids a b w.memory w'.memory) :
    Work.Matched (AllTwins a b w.memory w'.memory) (Kept [] [] w.memory w'.memory)
      (r.buildAll es w) (r.buildAll es w') := by
  induction es generalizing w w' with
  | nil => exact ⟨[], [], rfl, rfl, rfl, .nil hc.shifted⟩
  | cons e es ihs =>
    rw [buildAll]
    refine .bind (ih e List.mem_cons_self hc) (fun _ _ h => h) fun n n' v v' hn => ?_
    obtain ⟨hplan, hcopied⟩ := hn
    have hkept : Kept [] [] w.memory w'.memory v.memory v'.memory :=
      ⟨hcopied.extend, hcopied.extend'⟩
    have hrest := ihs (fun e he => ih e (List.mem_cons_of_mem _ he)) (hc.after hcopied)
    refine .bind hrest (fun _ _ h => hkept.after h) fun _ _ u u' hparts => ?_
    obtain ⟨nodes, nodes', rfl, rfl, hplans, hrest⟩ := hparts
    refine ⟨n :: nodes, n' :: nodes', rfl, rfl, ?_, hcopied.append hrest⟩
    exact congrArg₂ List.cons hplan hplans

theorem composite_twins {kind : String} {name : Label} (make : List Plan → Plan)
    {parts parts' : List Part} (h : AllTwins a b m m' parts parts' w.memory w'.memory) :
    Work.Matched (Twins a b m m') (Kept [] [] m m')
      ((do
        let nodes ← Part.children kind parts
        place (make (plans nodes)) name (sites nodes) : Work Node) w)
      ((do
        let nodes ← Part.children kind parts'
        place (make (plans nodes)) name (sites nodes) : Work Node) w') := by
  obtain ⟨nodes, nodes', rfl, rfl, hplans, hcopied⟩ := h
  have hlength : nodes'.length = nodes.length := by
    simpa only [plans, List.length_map] using congrArg List.length hplans
  by_cases hlen : 2 ≤ nodes.length
  · rw [children_nodes kind hlen, children_nodes kind (hlength.symm ▸ hlen)]
    refine ⟨congrArg make hplans, ?_⟩
    rw [hplans]
    exact hcopied.place _
  · rw [children_few kind hlen, children_few kind (hlength.symm ▸ hlen), hlength]
    exact ⟨rfl, hcopied.extend, hcopied.extend'⟩

theorem build_twins (hc : Copying id r.ids a b w.memory w'.memory) :
    Work.Matched (Twins a b w.memory w'.memory) (Kept [] [] w.memory w'.memory) (r.build e w)
      (r.build e w') := by
  induction e using Expr.induction generalizing w w' with
  | identifier x i =>
    rw [build]
    exact create_twins hc x
  | chain es ih =>
    rw [build]
    exact .bind (buildAll_twins ih hc) (fun _ _ h => h) fun _ _ v v' hparts =>
      composite_twins .sequential hparts
  | group es ih =>
    rw [build]
    exact .bind (buildAll_twins ih hc) (fun _ _ h => h) fun _ _ v v' hparts =>
      composite_twins .parallel hparts
  | other es ih =>
    rw [build]
    refine .bind (buildAll_twins ih hc) (fun _ _ h => h) fun _ _ v v' hparts => ?_
    obtain ⟨_, _, -, -, -, hcopied⟩ := hparts
    exact ⟨rfl, hcopied.extend, hcopied.extend'⟩

/-- Two compilations of one text end in one way. -/
theorem compile_twins (hc : Copying id r.ids a b w.memory w'.memory) (input : ExpressionInput) :
    Work.Matched (Twins a b w.memory w'.memory) (Kept [] [] w.memory w'.memory)
      (r.compile input w) (r.compile input w') := by
  rw [compile]
  cases input.expr with
  | error f => exact ⟨rfl, .refl _ _ _ _⟩
  | ok e =>
    rw [Work.run_ok_bind, Work.run_ok_bind]
    cases r.unknownNames e with
    | nil => exact build_twins hc
    | cons x names => exact ⟨rfl, .refl _ _ _ _⟩

end Registry
end ColumnFlow
