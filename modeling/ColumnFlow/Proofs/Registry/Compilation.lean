import ColumnFlow.Proofs.Expression.Tree
import ColumnFlow.Proofs.Node.Building
import ColumnFlow.Proofs.Node.Outline
import ColumnFlow.Registry.Compile
import ColumnFlow.Registry.Standard
import Mathlib

/-!
# Compilation

The tree that comes of an expression has the shape of the expression, with a renamed copy of a
prototype for every identifier. When no prototype is a composite, the structure of the tree tells
the expression, up to positions.
-/
namespace ColumnFlow

namespace Expr

/-- The structure of a tree for an expression, given those of the prototypes. -/
def shape (look : String → Structure) : Expr → Structure
  | .identifier x _ => (look x).rename (.text x)
  | .chain es => .composite "seq" (es.map (shape look))
  | .group es => .composite "par" (es.map (shape look))
  | .other es => .composite "other" (es.map (shape look))

theorem sameAll_shape_iff {look : String → Structure} {xs : List Expr}
    (ih : ∀ x ∈ xs, ∀ y, (x.shape look).same (y.shape look) = true ↔ x.same y = true)
    (ys : List Expr) :
    Structure.sameAll (xs.map (shape look)) (ys.map (shape look)) = true ↔
      sameAll xs ys = true := by
  induction xs generalizing ys with
  | nil => cases ys <;> simp [Structure.sameAll, sameAll]
  | cons x xs ihs =>
    cases ys with
    | nil => simp [Structure.sameAll, sameAll]
    | cons y ys =>
      simp only [List.map_cons, Structure.sameAll, sameAll, Bool.and_eq_true]
      rw [ih x (by simp) y, ihs (fun z hz => ih z (by simp [hz])) ys]

/-- Shapes are equal for equal expressions only, when all prototypes show a name. -/
theorem same_shape_iff {look : String → Structure} (hlook : ∀ x, (look x).name?.isSome = true)
    (a b : Expr) : (a.shape look).same (b.shape look) = true ↔ a.same b = true := by
  have hname : ∀ x, ((look x).rename (.text x)).name? = some (.text x) := by
    intro x
    obtain ⟨name, h⟩ := Option.isSome_iff_exists.1 (hlook x)
    rw [Structure.name?_rename, h]
    rfl
  induction a using Expr.induction generalizing b with
  | identifier x i =>
    cases b with
    | identifier y j =>
      simp only [shape, same, beq_iff_eq]
      constructor
      · intro h
        have hkey := Structure.same_name h
        rw [hname, hname] at hkey
        simpa [Scalar.key, Scalar.atoms] using hkey
      · rintro rfl
        exact Structure.same_refl _
    | chain ys | group ys | other ys =>
      -- A composite shows no name.
      simp only [shape, same, Bool.false_eq_true, iff_false]
      intro h
      have hkey := Structure.same_name h
      rw [hname] at hkey
      cases hkey
  | chain xs ih | group xs ih | other xs ih =>
    cases b with
    | identifier y j =>
      simp only [shape, same, Bool.false_eq_true, iff_false]
      intro h
      have hkey := Structure.same_name h
      rw [hname] at hkey
      cases hkey
    | chain ys | group ys | other ys =>
      simp [shape, same, Structure.same, sameAll_shape_iff ih]

end Expr

namespace Registry
open Node

/-- All prototypes are leaves or ensembles that are in use. -/
structure Stocked (r : Registry) (m : Memory) : Prop where
  single : ∀ e ∈ r.prototypes, isSequential e.2.plan = false ∧ isParallel e.2.plan = false
  taken : ∀ e ∈ r.prototypes, ∀ i ∈ e.2.site.ids, i < m.next

/-- The names in the prototypes are the same in two memories. -/
def SameNames (r : Registry) (m m' : Memory) : Prop :=
  ∀ e ∈ r.prototypes, ∀ i ∈ e.2.site.ids, (m'.slot i).name = (m.slot i).name

/-- A copy of a prototype that was made since some memory and given a name of its own. -/
structure Cloned (m : Memory) (p : Node) (name : Label) (n : Node) (v : Memory) : Prop where
  label_eq : n.label v = name
  copy : ∃ u u', Memory.Extends [] m u ∧ p.copy u = (n, u') ∧
    Memory.Extends [] (u'.update n.site.id fun slot => { slot with name := name }) v

/-- A tree for an expression, made since some memory: sequences for chains and parallels for groups,
over trees for the operands in their order, and renamed copies for identifiers. -/
inductive Realizes (r : Registry) (m v : Memory) : Expr → Node → Prop
  | identifier {x : String} {i : Int} {p n : Node} :
      r.prototypes.lookup x = some p → Cloned m p (.text x) n v →
        Realizes r m v (.identifier x i) n
  | chain {es : List Expr} {nodes : List Node} {n : Node} :
      List.Forall₂ (Realizes r m v) es nodes → n.plan = .sequential (plans nodes) →
        n.site.parts = sites nodes → Realizes r m v (.chain es) n
  | group {es : List Expr} {nodes : List Node} {n : Node} :
      List.Forall₂ (Realizes r m v) es nodes → n.plan = .parallel (plans nodes) →
        n.site.parts = sites nodes → Realizes r m v (.group es) n

/-- What a copy of a prototype looks like. -/
def prototype (r : Registry) (m : Memory) (x : String) : Structure :=
  match r.prototypes.lookup x with
  | some p => p.plan.blueprint m p.site
  | none => .atomic .null ""

variable {r : Registry} {m m' : Memory} {w v : Workspace} {p n : Node} {x : String} {e : Expr}
  {es : List Expr} {S : List Nat}

theorem mem_of_lookup (h : r.prototypes.lookup x = some p) : (x, p) ∈ r.prototypes := by
  obtain ⟨before, after, hlist, -⟩ := List.lookup_eq_some_iff.1 h
  rw [hlist]
  simp

theorem Stocked.extend (h : r.Stocked m) (hm : Memory.Extends S m m') : r.Stocked m' :=
  ⟨h.single, fun e he i hi => Nat.lt_of_lt_of_le (h.taken e he i hi) hm.next_le⟩

theorem Stocked.sameNames (h : r.Stocked m) (hm : Memory.Extends S m m') : r.SameNames m m' :=
  fun e he i hi => hm.name_eq i (h.taken e he i hi)

theorem prototype_congr (h : r.SameNames m m') (x : String) :
    r.prototype m' x = r.prototype m x := by
  unfold prototype
  cases hx : r.prototypes.lookup x with
  | none => rfl
  | some p => exact Plan.blueprint_congr (h _ (mem_of_lookup hx))

theorem name_prototype (h : r.Stocked m) (x : String) :
    (r.prototype m x).name?.isSome = true := by
  unfold prototype
  cases hx : r.prototypes.lookup x with
  | none => rfl
  | some p =>
    obtain ⟨hsequential, hparallel⟩ := h.single _ (mem_of_lookup hx)
    obtain ⟨plan, s⟩ := p
    cases plan with
    | sequential ps => cases hsequential
    | parallel ps => cases hparallel
    | _ => simp only [Plan.blueprint, Plan.draft, Structure.name?, Option.isSome_some]

theorem Cloned.outline_eq {name : Label} {u : Memory} (h : Cloned m p name n u)
    (hp : ∀ i ∈ p.site.ids, i < m.next) :
    n.outline u = (p.plan.blueprint m p.site).rename name := by
  obtain ⟨u₀, u₁, hext, hcopy, hlast⟩ := h.copy
  obtain ⟨rfl, rfl⟩ := Prod.mk.inj hcopy
  have hp' : ∀ i ∈ p.site.ids, i < u₀.next := fun i hi => Nat.lt_of_lt_of_le (hp i hi) hext.next_le
  have hlays := (Plan.reproduces p.plan).lays hp'
  have hnames := Plan.blueprint_congr (p := p.plan) fun i hi => hext.name_eq i (hp i hi)
  rw [← hnames, ← Plan.outline_copy_renamed p.plan hp' name]
  refine Plan.outline_extend hlast fun i hi => ?_
  rw [Memory.next_update]
  exact hlays.taken i hi

theorem outlines_eq {look : String → Structure} {u : Memory} {nodes : List Node}
    (ih : ∀ e ∈ es, ∀ {n}, r.Realizes m u e n → n.outline u = e.shape look)
    (h : List.Forall₂ (r.Realizes m u) es nodes) :
    Plan.outlines u (plans nodes) (sites nodes) = es.map (Expr.shape look) := by
  induction h with
  | nil => rfl
  | @cons e n es nodes hfirst _ ihs =>
    rw [List.map_cons, ← ih e (by simp) hfirst, ← ihs fun e he => ih e (by simp [he])]
    rfl

/-- The structure of a tree for an expression is the shape of the expression. -/
theorem Realizes.outline_eq {u : Memory} (h : r.Realizes m u e n) (hr : r.Stocked m) :
    n.outline u = e.shape (r.prototype m) := by
  induction e using Expr.induction generalizing n with
  | identifier x i =>
    cases h with
    | identifier hx hclone =>
      rw [hclone.outline_eq (hr.taken _ (mem_of_lookup hx)), Expr.shape, prototype, hx]
  | chain es ih =>
    cases h with
    | chain hparts hplan hsite =>
      unfold Node.outline
      rw [hplan, Plan.outline, hsite, outlines_eq ih hparts, Expr.shape]
  | group es ih =>
    cases h with
    | group hparts hplan hsite =>
      unfold Node.outline
      rw [hplan, Plan.outline, hsite, outlines_eq ih hparts, Expr.shape]
  | other es ih => cases h

/-! What building an expression does. -/

theorem Cloned.extend {name : Label} {u v : Memory} (h : Cloned m p name n u)
    (hp : ∀ i ∈ p.site.ids, i < m.next) (hv : Memory.Extends [] u v) : Cloned m p name n v := by
  obtain ⟨u₀, u₁, hext, hcopy, hlast⟩ := h.copy
  refine ⟨?_, u₀, u₁, hext, hcopy, hlast.trans hv (by simp)⟩
  obtain ⟨rfl, rfl⟩ := Prod.mk.inj hcopy
  rw [← h.label_eq]
  refine hv.name_eq _ ?_
  have hlays := (Plan.reproduces p.plan).lays fun i hi =>
    Nat.lt_of_lt_of_le (hp i hi) hext.next_le
  refine Nat.lt_of_lt_of_le (hlays.taken _ (Site.id_mem_ids _)) ?_
  have hle := hlast.next_le
  rwa [Memory.next_update] at hle

theorem realizes_all {u v : Memory} {nodes : List Node}
    (ih : ∀ e ∈ es, ∀ {n}, r.Realizes m u e n → r.Realizes m v e n)
    (h : List.Forall₂ (r.Realizes m u) es nodes) : List.Forall₂ (r.Realizes m v) es nodes := by
  have hboth := (List.forall₂_and_left es nodes).2 ⟨fun e he n => @ih e he n, h⟩
  exact hboth.imp fun e n ⟨ih, h⟩ => ih n h

/-- A tree stands for its expression as long as nothing in it is changed. -/
theorem Realizes.extend {u v : Memory} (hr : r.Stocked m) (hv : Memory.Extends [] u v)
    (h : r.Realizes m u e n) : r.Realizes m v e n := by
  induction e using Expr.induction generalizing n with
  | identifier x i =>
    cases h with
    | identifier hx hclone =>
      exact .identifier hx (hclone.extend (hr.taken _ (mem_of_lookup hx)) hv)
  | chain es ih =>
    cases h with
    | chain hparts hplan hsite => exact .chain (realizes_all ih hparts) hplan hsite
  | group es ih =>
    cases h with
    | group hparts hplan hsite => exact .group (realizes_all ih hparts) hplan hsite
  | other es ih => cases h

theorem create_cloned (hr : ∀ e ∈ r.prototypes, ∀ i ∈ e.2.site.ids, i < m.next)
    (hm : Memory.Extends [] m w.memory) (h : r.create (.text x) w = (.ok n, v)) :
    ∃ p, r.prototypes.lookup x = some p ∧ Cloned m p (.text x) n v.memory ∧
      Memory.Extends [] w.memory v.memory := by
  unfold create find at h
  dsimp only at h
  rcases hx : r.prototypes.lookup x with _ | p
  · rw [hx] at h
    cases congrArg Prod.fst h
  · rw [hx] at h
    obtain ⟨hn, rfl⟩ := Prod.mk.inj h
    obtain rfl := Except.ok.inj hn
    have hp : ∀ i ∈ p.site.ids, i < w.memory.next := fun i hi =>
      Nat.lt_of_lt_of_le (hr _ (mem_of_lookup hx) i hi) hm.next_le
    have hlays := (Plan.reproduces p.plan).lays hp
    have htop := Site.id_mem_ids (p.copy w.memory).1.site
    -- The name is set on a new identity, so nothing older changes.
    refine ⟨p, rfl, ⟨?_, w.memory, _, hm, rfl, .refl _ _⟩,
      hlays.extend.update_new (hlays.new _ htop) _⟩
    exact congrArg Slot.name (Memory.slot_update_self (hlays.taken _ htop))

theorem buildAll_realizes
    (ih : ∀ e ∈ es, ∀ {w v : Workspace} {n}, Memory.Extends [] m w.memory →
      r.build e w = (.ok n, v) → r.Realizes m v.memory e n ∧ Memory.Extends [] w.memory v.memory)
    (hr : r.Stocked m) (hm : Memory.Extends [] m w.memory) {parts : List Part}
    (h : r.buildAll es w = (.ok parts, v)) :
    ∃ nodes, parts = nodes.map Part.node ∧ List.Forall₂ (r.Realizes m v.memory) es nodes ∧
      Memory.Extends [] w.memory v.memory := by
  induction es generalizing w v parts with
  | nil =>
    obtain ⟨hparts, rfl⟩ := Prod.mk.inj h
    obtain rfl := Except.ok.inj hparts
    exact ⟨[], rfl, .nil, .refl [] _⟩
  | cons e es ihs =>
    rw [buildAll] at h
    obtain ⟨n, u, hn, h⟩ := Work.ok_of_bind h
    obtain ⟨rest, u', hrest, hpure⟩ := Work.ok_of_bind h
    obtain ⟨hparts, rfl⟩ := Prod.mk.inj hpure
    obtain rfl := Except.ok.inj hparts
    obtain ⟨hfirst, hext⟩ := ih e (by simp) hm hn
    -- The operands that follow leave the tree of this one as it is.
    obtain ⟨nodes, rfl, hnodes, hext'⟩ :=
      ihs (fun e he => ih e (by simp [he])) (hm.trans hext (by simp)) hrest
    exact ⟨n :: nodes, rfl, .cons (hfirst.extend hr hext') hnodes, hext.trans hext' (by simp)⟩

theorem build_realizes (hr : r.Stocked m) (hm : Memory.Extends [] m w.memory)
    (h : r.build e w = (.ok n, v)) :
    r.Realizes m v.memory e n ∧ Memory.Extends [] w.memory v.memory := by
  induction e using Expr.induction generalizing w v n with
  | identifier x i =>
    rw [build] at h
    obtain ⟨p, hx, hclone, hext⟩ := create_cloned hr.taken hm h
    exact ⟨.identifier hx hclone, hext⟩
  | chain es ih =>
    rw [build] at h
    obtain ⟨parts, u, hparts, h⟩ := Work.ok_of_bind h
    obtain ⟨nodes, rfl, hnodes, hext⟩ := buildAll_realizes ih hr hm hparts
    obtain ⟨-, hplan, hsite, hext', -⟩ := composite_run .sequential h
    refine ⟨.chain (hnodes.imp fun e n => .extend hr hext') hplan (by rw [hsite]; rfl),
      hext.trans hext' (by simp)⟩
  | group es ih =>
    rw [build] at h
    obtain ⟨parts, u, hparts, h⟩ := Work.ok_of_bind h
    obtain ⟨nodes, rfl, hnodes, hext⟩ := buildAll_realizes ih hr hm hparts
    obtain ⟨-, hplan, hsite, hext', -⟩ := composite_run .parallel h
    refine ⟨.group (hnodes.imp fun e n => .extend hr hext') hplan (by rw [hsite]; rfl),
      hext.trans hext' (by simp)⟩
  | other es ih =>
    rw [build] at h
    obtain ⟨parts, u, -, h⟩ := Work.ok_of_bind h
    cases congrArg Prod.fst h

theorem build_of_compile {input : ExpressionInput} (h : r.compile input w = (.ok n, v)) :
    ∃ e, input.expr = .ok e ∧ r.build e w = (.ok n, v) := by
  unfold compile at h
  rcases he : input.expr with f | e
  · rw [he] at h
    cases congrArg Prod.fst h
  · rw [he, Work.run_ok_bind] at h
    rcases hunknown : r.unknownNames e with _ | ⟨x, names⟩ <;> rw [hunknown] at h
    · exact ⟨e, rfl, h⟩
    · cases congrArg Prod.fst h

theorem compile_realizes {input : ExpressionInput} (hr : r.Stocked w.memory)
    (h : r.compile input w = (.ok n, v)) :
    ∃ e, input.expr = .ok e ∧ r.Realizes w.memory v.memory e n ∧
      Memory.Extends [] w.memory v.memory := by
  obtain ⟨e, he, hbuild⟩ := build_of_compile h
  exact ⟨e, he, build_realizes hr (.refl [] _) hbuild⟩

/-! Registries are stocked by what is registered. -/

theorem mem_put {α : Type} {entries : List (String × α)} {e : String × α} {a : α}
    (h : e ∈ put entries x a) : e = (x, a) ∨ e ∈ entries := by
  unfold put at h
  split at h
  · obtain ⟨d, hd, rfl⟩ := List.mem_map.1 h
    by_cases hx : d.1 == x
    · exact .inl (if_pos hx)
    · exact .inr ((if_neg hx).symm ▸ hd)
  · rcases List.mem_append.1 h with h | h
    · exact .inr h
    · exact .inl (List.mem_singleton.1 h)

theorem part_of_check {new : Registration} (h : r.check new = .ok (x, n)) : new.part = .node n := by
  unfold check at h
  split at h
  · split at h
    · cases h
    · split at h
      · cases h
      · next c hpart =>
        split at h
        · cases h
        · rw [hpart, (Prod.mk.inj (Except.ok.inj h)).2]
  · cases h

/-- Leaves and ensembles can be registered under any name. -/
theorem Stocked.register (h : r.Stocked m) (new : Registration)
    (hnew : ∀ n, new.part = .node n → isSequential n.plan = false ∧ isParallel n.plan = false ∧
      ∀ i ∈ n.site.ids, i < m.next) :
    (r.register new).1.Stocked m := by
  unfold Registry.register
  rcases hcheck : r.check new with f | ⟨x, n⟩
  · exact h
  · obtain ⟨hsequential, hparallel, htaken⟩ := hnew n (part_of_check hcheck)
    have hput : Stocked { r with prototypes := put r.prototypes x n } m := by
      refine ⟨fun e he => ?_, fun e he => ?_⟩
      · rcases mem_put he with rfl | he
        · exact ⟨hsequential, hparallel⟩
        · exact h.single e he
      · rcases mem_put he with rfl | he
        · exact htaken
        · exact h.taken e he
    dsimp only
    split
    · exact hput
    · exact ⟨hput.single, hput.taken⟩

theorem StandardEntry.register_stocked (entry : StandardEntry) (hr : r.Stocked w.memory) :
    ∃ r' v, entry.register r w = (.ok r', v) ∧ r'.Stocked v.memory := by
  unfold StandardEntry.register
  rcases hplan : entry.plan? with _ | plan
  · exact ⟨r, w, rfl, hr⟩
  · have hsingle : isSequential plan = false ∧ isParallel plan = false := by
      unfold StandardEntry.plan? at hplan
      split at hplan
      · obtain rfl := Option.some.inj hplan
        exact ⟨rfl, rfl⟩
      · obtain ⟨k, -, rfl⟩ := Option.map_eq_some_iff.1 hplan
        exact ⟨rfl, rfl⟩
    have hext := w.memory.extends_place (.text entry.name) []
    refine ⟨_, _, rfl, (hr.extend hext).register _ fun n hn => ?_⟩
    obtain rfl := Part.node.inj hn
    refine ⟨hsingle.1, hsingle.2, fun i hi => ?_⟩
    obtain rfl : i = w.memory.next := List.mem_singleton.1 hi
    change w.memory.next < (w.memory.alloc _).next
    rw [Memory.next_alloc]
    exact Nat.lt_succ_self _

theorem stocked_entries (entries : List StandardEntry) (hr : r.Stocked w.memory) :
    ∃ r' v, entries.foldlM StandardEntry.register r w = (.ok r', v) ∧ r'.Stocked v.memory := by
  induction entries generalizing r w with
  | nil => exact ⟨r, w, rfl, hr⟩
  | cons entry entries ih =>
    obtain ⟨r₁, u, hentry, hr₁⟩ := entry.register_stocked hr
    obtain ⟨r', v, hentries, hr'⟩ := ih hr₁
    refine ⟨r', v, ?_, hr'⟩
    rw [List.foldlM_cons, Work.run_bind, hentry]
    exact hentries

theorem stocked_empty (m : Memory) : empty.Stocked m := ⟨by simp [empty], by simp [empty]⟩

/-- Compilation is one-to-one on trees. Two texts that compile, on one registry whose prototypes are
leaves and ensembles, have equal structures just when they have equal expressions. The trees
are sequences for chains and parallels for groups, with operands in their order, and for every
identifier a copy of its prototype that bears the identifier, whatever the prototype is called.
The standard registry is of this kind, and stays so when leaves and ensembles are registered. -/
theorem compile_one_to_one :
    (∀ (r : Registry) (w u v v' : Workspace) (t t' : String) (n n' : Node),
      r.Stocked w.memory → r.Stocked u.memory → r.SameNames w.memory u.memory →
      r.compile (.text t) w = (.ok n, v) → r.compile (.text t') u = (.ok n', v') →
        ∃ e e', Expression.parse t = .ok e ∧ Expression.parse t' = .ok e' ∧
          ((n.outline v.memory).same (n'.outline v'.memory) = true ↔ e.same e' = true) ∧
          r.Realizes w.memory v.memory e n ∧ r.Realizes u.memory v'.memory e' n' ∧
          Memory.Extends [] w.memory v.memory ∧ Memory.Extends [] u.memory v'.memory) ∧
    (∀ w : Workspace, ∃ r v, standard w = (.ok r, v) ∧ r.Stocked v.memory) ∧
    ∀ (r : Registry) (m : Memory) (new : Registration), r.Stocked m →
      (∀ n, new.part = .node n → isSequential n.plan = false ∧ isParallel n.plan = false ∧
        ∀ i ∈ n.site.ids, i < m.next) →
      (r.register new).1.Stocked m := by
  refine ⟨fun r w u v v' t t' n n' hw hu hnames h h' => ?_,
    fun w => stocked_entries _ (stocked_empty w.memory), fun r m new hr => hr.register new⟩
  obtain ⟨e, he, htree, hext⟩ := compile_realizes hw h
  obtain ⟨e', he', htree', hext'⟩ := compile_realizes hu h'
  refine ⟨e, e', he, he', ?_, htree, htree', hext, hext'⟩
  have hlook : r.prototype u.memory = r.prototype w.memory := funext (prototype_congr hnames)
  rw [htree.outline_eq hw, htree'.outline_eq hu, hlook]
  exact Expr.same_shape_iff (name_prototype hw) e e'

/-- A prototype with a name of its own and an ensemble. Parentheses around a group make no
difference to a chain, and those around the chain do. -/
theorem compile_one_to_one_grouped :
    let step : Plan := .transformer (Passthrough.passthrough [])
    let other : Node := ⟨step, .mk 0 []⟩
    let vote : Node := ⟨.vote [step, step], .mk 3 [.mk 1 [], .mk 2 []]⟩
    let r := ((empty.register ⟨.text "a", .node other, .text "", .text "", false⟩).1.register
      ⟨.text "b", .node vote, .text "", .text "", false⟩).1
    let w : Workspace := ⟨⟨#[.fresh (.text "other"), .fresh (.text "x"), .fresh (.text "y"),
      .fresh (.text "vote")]⟩, [], false⟩
    r.Stocked w.memory ∧ ∃ n v n' v' k u, r.compile (.text "a |> b + a") w = (.ok n, v) ∧
      r.compile (.text "a|>((b)+a)") v = (.ok n', v') ∧
      (n.outline v.memory).same (n'.outline v'.memory) = true ∧
      r.compile (.text "(a |> b) + a") w = (.ok k, u) ∧
      (k.outline u.memory).same (n'.outline v'.memory) = false := by
  intro step other vote r w
  obtain ⟨hiff, -, hregister⟩ := compile_one_to_one
  have hw : r.Stocked w.memory := by
    refine hregister _ _ _ (hregister _ _ _ (stocked_empty _) ?_) ?_
    · intro n hn
      obtain rfl := Part.node.inj hn
      exact ⟨rfl, rfl, by decide⟩
    · intro n hn
      obtain rfl := Part.node.inj hn
      exact ⟨rfl, rfl, by decide⟩
  have hparse : Expression.parse "a |> b + a" =
      .ok (.chain [.identifier "a" 0, .group [.identifier "b" 5, .identifier "a" 9]]) := by cbv
  have hparse' : Expression.parse "a|>((b)+a)" =
      .ok (.chain [.identifier "a" 0, .group [.identifier "b" 5, .identifier "a" 8]]) := by cbv
  have hother : Expression.parse "(a |> b) + a" =
      .ok (.group [.chain [.identifier "a" 1, .identifier "b" 6], .identifier "a" 11]) := by cbv
  have hcompile : ∀ {t : String} {e : Expr} (u : Workspace), Expression.parse t = .ok e →
      r.compile (.text t) u = r.compile (.tree e) u := by
    intro t e u h
    unfold compile
    rw [ExpressionInput.expr, h, ExpressionInput.expr]
  obtain ⟨n, v, hn⟩ : ∃ n v, r.compile (.text "a |> b + a") w = (.ok n, v) :=
    ⟨_, _, hcompile w hparse⟩
  obtain ⟨n', v', hn'⟩ : ∃ n v', r.compile (.text "a|>((b)+a)") v = (.ok n, v') :=
    ⟨_, _, hcompile v hparse'⟩
  obtain ⟨k, u, hk⟩ : ∃ k u, r.compile (.text "(a |> b) + a") w = (.ok k, u) :=
    ⟨_, _, hcompile w hother⟩
  obtain ⟨-, -, -, hext⟩ := compile_realizes hw hn
  obtain ⟨e, e', he, he', hsame, -⟩ :=
    hiff r w v v v' _ _ n n' hw (hw.extend hext) (hw.sameNames hext) hn hn'
  obtain ⟨f, f', hf, hf', hdifferent, -⟩ :=
    hiff r w v u v' _ _ k n' hw (hw.extend hext) (hw.sameNames hext) hk hn'
  rw [hparse] at he
  rw [hparse'] at he' hf'
  rw [hother] at hf
  cases he
  cases he'
  cases hf
  cases hf'
  refine ⟨hw, n, v, n', v', k, u, hn, hn', hsame.2 (by decide), hk, ?_⟩
  exact Bool.eq_false_iff.2 fun h => absurd (hdifferent.1 h) (by decide)

end Registry
end ColumnFlow
