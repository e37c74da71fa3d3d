import ColumnFlow.Proofs.Node.History
import ColumnFlow.Proofs.Node.Locality
import ColumnFlow.Proofs.Registry.Twins

/-!
# Isolation

Compilations and calls, one after another: compiled trees are fitted and asked for answers, and so
are the prototypes. What is called of some compiled trees does not show in anything else: without
these calls, all other replies are the same. The identities are not, since a fit may take new ones
for candidates that it tries out, so the two runs are followed under a renaming.
-/
namespace ColumnFlow

namespace Site

variable {f g : Nat → Nat}

mutual

theorem rename_congr : (s : Site) → (∀ i ∈ s.ids, f i = g i) → s.rename f = s.rename g
  | .mk i parts, h => by
    have hparts := renameAll_congr parts fun j hj => h j (List.mem_cons_of_mem _ hj)
    simp only [rename, h i List.mem_cons_self, hparts]

theorem renameAll_congr :
    (ss : List Site) → (∀ i ∈ idsOf ss, f i = g i) → renameAll f ss = renameAll g ss
  | [], _ => rfl
  | s :: ss, h => by
    have hs := rename_congr s fun i hi => h i (List.mem_append_left _ hi)
    have hss := renameAll_congr ss fun i hi => h i (List.mem_append_right _ hi)
    simp only [renameAll, hs, hss]

end

end Site

namespace Memory

variable {f g : Nat → Nat} {S T : List Nat} {m m' v v' : Memory} {c c' : Site}

theorem Mirrors.congr (h : Mirrors f S m m') (hg : ∀ i ∈ S, g i = f i) : Mirrors g S m m' where
  renamed i hi := by
    rw [hg i hi]
    exact h.renamed i hi
  apart i hi j hj hij := by
    rw [hg i hi, hg j hj] at hij
    exact h.apart i hi j hj hij
  taken := h.taken
  taken' i hi := by
    rw [hg i hi]
    exact h.taken' i hi

theorem Mirrors.mono (h : Mirrors f S m m') (hT : T ⊆ S) : Mirrors f T m m' where
  renamed := h.renamed.mono hT
  apart i hi j hj := h.apart i (hT hi) j (hT hj)
  taken i hi := h.taken i (hT hi)
  taken' i hi := h.taken' i (hT hi)

theorem Mirrors.append (h : Mirrors f S m m') (h' : Mirrors f T m m')
    (hne : ∀ i ∈ S, ∀ j ∈ T, f i ≠ f j) : Mirrors f (S ++ T) m m' where
  renamed i hi := by
    rcases List.mem_append.1 hi with hi | hi
    · exact h.renamed i hi
    · exact h'.renamed i hi
  apart i hi j hj hij := by
    rcases List.mem_append.1 hi with hi | hi <;> rcases List.mem_append.1 hj with hj | hj
    · exact h.apart i hi j hj hij
    · exact absurd hij (hne i hi j hj)
    · exact absurd hij.symm (hne j hj i hi)
    · exact h'.apart i hi j hj hij
  taken i hi := by
    rcases List.mem_append.1 hi with hi | hi
    · exact h.taken i hi
    · exact h'.taken i hi
  taken' i hi := by
    rcases List.mem_append.1 hi with hi | hi
    · exact h.taken' i hi
    · exact h'.taken' i hi

/-- A renaming that goes on with a shift from some identity on. -/
def graft (f : Nat → Nat) (a b i : Nat) : Nat := if i < a then f i else shift a b i

theorem graft_of_lt {a b i : Nat} (h : i < a) : graft f a b i = f i := if_pos h

theorem graft_of_le {a b i : Nat} (h : a ≤ i) : graft f a b i = shift a b i :=
  if_neg (Nat.not_lt.2 h)

/-- What was copied side by side joins what is the same on both sides. -/
theorem Mirrors.graft (h : Mirrors f S m m') (hc : Copied m.next m'.next m m' [c] [c'] v v') :
    Mirrors (graft f m.next m'.next) (S ++ c.ids) v v' := by
  have hkept : Kept [] [] m m' v v' := ⟨hc.extend, hc.extend'⟩
  have hold := h.keep hkept (fun _ _ => List.not_mem_nil) fun _ _ => List.not_mem_nil
  refine (hold.congr fun i hi => graft_of_lt (h.taken i hi)).append
    (hc.mirrors.congr fun i hi => graft_of_le (hc.shift_new hi).1) fun i hi j hj hij => ?_
  rw [graft_of_lt (h.taken i hi), graft_of_le (hc.shift_new hj).1] at hij
  have hlt := h.taken' i hi
  have hle := (hc.shift_new hj).2
  omega

end Memory

/-! Calls of one tree in two memories. -/

inductive Reply
  | compiled (text : Except Failure String)
  | fitted (result : Except Failure Unit)
  | answered (frame : Logged Frame)
  | refused (e : Failure)
  | missing

namespace Node
open Memory

variable {f : Nat → Nat} {S : List Nat} {n : Node} {w w' : Workspace}

def respond (n : Node) (w : Workspace) : Call → Reply
  | .fit env X y => .fitted (n.fit env X y w).1
  | .transform Z => .answered (n.transform w.memory Z)

theorem memory_call_transform (n : Node) (Z : Data) (w : Workspace) :
    (n.call (.transform Z) w).2.memory = w.memory := by
  have hsteady : Work.Steady (liftM (n.transform w.memory Z) >>= fun _ => pure () : Work Unit) :=
    .bind (.logged _) fun _ => .pure _
  exact (hsteady w w).2

/-- A tree under other identities replies alike, and the memories stay alike. -/
theorem call_mirrors (hids : n.site.ids ⊆ S) (h : Mirrors f S w.memory w'.memory) (call : Call) :
    n.respond w call = respond ⟨n.plan, n.site.rename f⟩ w' call ∧
      Tracks f S w.memory w'.memory (n.call call w).2.memory
        (Node.call ⟨n.plan, n.site.rename f⟩ call w').2.memory := by
  obtain ⟨p, s⟩ := n
  cases call with
  | fit env X y =>
    have hfit : Work.Alongside (Tracks f S w.memory w'.memory) (Node.fit env ⟨p, s⟩ X y)
        (Node.fit env ⟨p, s.rename f⟩ X y) := by
      refine .bind (.steady (.except _)) fun F => .bind (.steady (.except _)) fun target => ?_
      exact Plan.follows env p f S _ _ s F target hids
    have hrun := hfit w w' h.tracks
    change Reply.fitted (Node.fit env ⟨p, s⟩ X y w).1 =
      Reply.fitted (Node.fit env ⟨p, s.rename f⟩ X y w').1 ∧
      Tracks f S w.memory w'.memory (Node.fit env ⟨p, s⟩ X y w).2.memory
        (Node.fit env ⟨p, s.rename f⟩ X y w').2.memory
    rcases hx : Node.fit env ⟨p, s⟩ X y w with ⟨e | _, v⟩ <;>
      rcases hy : Node.fit env ⟨p, s.rename f⟩ X y w' with ⟨e' | _, v'⟩ <;> rw [hx, hy] at hrun
    · exact ⟨by rw [hrun.1], hrun.2⟩
    · exact hrun.elim
    · exact hrun.elim
    · exact ⟨rfl, hrun.2⟩
  | transform Z =>
    rw [memory_call_transform, memory_call_transform]
    refine ⟨congrArg Reply.answered ?_, h.tracks⟩
    have hrenamed : w.memory.Renamed f s.ids w'.memory := h.renamed.mono hids
    have hfitted : Node.isFitted ⟨p, s⟩ w.memory = Node.isFitted ⟨p, s.rename f⟩ w'.memory :=
      Plan.isFitted_rename hrenamed
    have hlabel : Node.label ⟨p, s⟩ w.memory = Node.label ⟨p, s.rename f⟩ w'.memory :=
      hrenamed.head.1
    rw [Node.transform, Node.transform, hfitted, hlabel]
    simp only [Plan.transform_rename hrenamed]

/-- A call changes nothing outside of the tree. -/
theorem call_within (hids : ∀ i ∈ n.site.ids, i < w.memory.next) (call : Call) :
    Extends n.site.ids w.memory (n.call call w).2.memory := by
  have hmirrors : Mirrors id n.site.ids w.memory w.memory :=
    ⟨fun _ _ => rfl, fun _ _ _ _ h => h, hids, hids⟩
  exact (call_mirrors (List.Subset.refl _) hmirrors call).2.kept.1

end Node

/-! Compilations and calls in turn. -/

/-- The trees that were compiled so far, and where they stand. -/
structure Bench where
  trees : List Node
  space : Workspace

inductive Action
  | compile (input : ExpressionInput)
  | prototype (name : String) (call : Call)
  | tree (place : Nat) (call : Call)

/-- Whether an action is a call of one of certain compiled trees. -/
def Action.isOn (hidden : Nat → Bool) : Action → Bool
  | .tree place _ => hidden place
  | _ => false

namespace Bench

def call (b : Bench) (n : Node) (call : Call) : Reply × Bench :=
  (n.respond b.space call, { b with space := (n.call call b.space).2 })

def act (r : Registry) (b : Bench) : Action → Reply × Bench
  | .compile input =>
    match r.compile input b.space with
    | (.ok n, w) => (.compiled (n.text w.memory), ⟨b.trees ++ [n], w⟩)
    | (.error e, w) => (.refused e, ⟨b.trees, w⟩)
  | .prototype name call =>
    match r.prototypes.lookup name with
    | some p => b.call p call
    | none => (.missing, b)
  | .tree place call =>
    match b.trees[place]? with
    | some n => b.call n call
    | none => (.missing, b)

def after (r : Registry) (b : Bench) (actions : List Action) : Bench :=
  actions.foldl (fun b a => (b.act r a).2) b

def replies (r : Registry) : Bench → List Action → List (Action × Reply)
  | _, [] => []
  | b, a :: actions => (a, (b.act r a).1) :: replies r (b.act r a).2 actions

end Bench

namespace Registry
open Memory

/-- Two benches of which the second has not seen the calls of hidden trees. All other trees and the
prototypes are the same in both, under a renaming that leaves the prototypes alone. The hidden trees
share nothing with them. -/
structure Linked (r : Registry) (hidden : Nat → Bool) (f : Nat → Nat) (S : List Nat)
    (b b' : Bench) : Prop where
  mirrors : Mirrors f S b.space.memory b'.space.memory
  prototypes : ∀ i ∈ r.ids, i ∈ S ∧ f i = i
  length_eq : b'.trees.length = b.trees.length
  apart : ∀ k n, hidden k = true → b.trees[k]? = some n →
    ∀ i ∈ n.site.ids, i < b.space.memory.next ∧ i ∉ S
  shown : ∀ k n, hidden k = false → b.trees[k]? = some n →
    n.site.ids ⊆ S ∧ b'.trees[k]? = some ⟨n.plan, n.site.rename f⟩

namespace Linked

variable {r : Registry} {hidden : Nat → Bool} {f g : Nat → Nat} {S : List Nat} {b b' : Bench}
  {n : Node} {w w' : Workspace}

theorem start (hidden : Nat → Bool) (hw : r.InUse w.memory) :
    Linked r hidden id r.ids ⟨[], w⟩ ⟨[], w⟩ where
  mirrors := ⟨fun _ _ => rfl, fun _ _ _ _ h => h, hw, hw⟩
  prototypes _ hi := ⟨hi, rfl⟩
  length_eq := rfl
  apart _ _ _ h := nomatch h
  shown _ _ _ h := nomatch h

theorem next (h : Linked r hidden f S b b') (hg : ∀ i ∈ S, g i = f i)
    (hw : Mirrors g S w.memory w'.memory) (hle : b.space.memory.next ≤ w.memory.next) :
    Linked r hidden g S { b with space := w } { b' with space := w' } where
  mirrors := hw
  prototypes i hi := by
    obtain ⟨hmem, hf⟩ := h.prototypes i hi
    exact ⟨hmem, (hg i hmem).trans hf⟩
  length_eq := h.length_eq
  apart k n hk hn i hi :=
    ⟨Nat.lt_of_lt_of_le (h.apart k n hk hn i hi).1 hle, (h.apart k n hk hn i hi).2⟩
  shown k n hk hn := by
    obtain ⟨hids, htree⟩ := h.shown k n hk hn
    refine ⟨hids, ?_⟩
    rw [htree, Site.rename_congr _ fun i hi => hg i (hids hi)]

theorem call_shown (h : Linked r hidden f S b b') (hids : n.site.ids ⊆ S) (call : Call) :
    (b.call n call).1 = (b'.call ⟨n.plan, n.site.rename f⟩ call).1 ∧
      Linked r hidden f S (b.call n call).2 (b'.call ⟨n.plan, n.site.rename f⟩ call).2 := by
  obtain ⟨hreply, htracks⟩ := Node.call_mirrors hids h.mirrors call
  exact ⟨hreply, h.next (fun _ _ => rfl) htracks.mirrors htracks.kept.1.next_le⟩

theorem call_hidden (h : Linked r hidden f S b b') {k : Nat} (hk : hidden k = true)
    (hn : b.trees[k]? = some n) (call : Call) : Linked r hidden f S (b.call n call).2 b' := by
  have hext := Node.call_within (fun i hi => (h.apart k n hk hn i hi).1) call
  have hkept : Kept n.site.ids [] b.space.memory b'.space.memory
      (n.call call b.space).2.memory b'.space.memory := ⟨hext, .refl _ _⟩
  have hmirrors := h.mirrors.keep hkept (fun i hi hin => (h.apart k n hk hn i hin).2 hi)
    fun _ _ => List.not_mem_nil
  exact h.next (fun _ _ => rfl) hmirrors hext.next_le

theorem hidden_step (h : Linked r hidden f S b b') {a : Action} (ha : a.isOn hidden = true) :
    Linked r hidden f S (b.act r a).2 b' := by
  cases a with
  | tree k call =>
    rw [Bench.act]
    cases hn : b.trees[k]? with
    | none => exact h
    | some n => exact h.call_hidden ha hn call
  | _ => exact absurd ha Bool.false_ne_true

theorem getElem?_snoc {n q : Node} {trees : List Node} {k : Nat}
    (h : (trees ++ [n])[k]? = some q) : trees[k]? = some q ∨ k = trees.length ∧ q = n := by
  by_cases hk : k < trees.length
  · rw [List.getElem?_append_left hk] at h
    exact .inl h
  · obtain ⟨hlt, hq⟩ := List.getElem?_eq_some_iff.1 h
    rw [List.length_append, List.length_singleton] at hlt
    obtain rfl : k = trees.length := by omega
    rw [List.getElem?_concat_length] at h
    exact .inr ⟨rfl, (Option.some.inj h).symm⟩

theorem snoc_hidden (h : Linked r hidden f S b b') (hk : hidden b.trees.length = true)
    (hn : ∀ i ∈ n.site.ids, i < b.space.memory.next ∧ i ∉ S) (n' : Node) :
    Linked r hidden f S { b with trees := b.trees ++ [n] } { b' with trees := b'.trees ++ [n'] }
    where
  mirrors := h.mirrors
  prototypes := h.prototypes
  length_eq := by
    rw [List.length_append, List.length_append, h.length_eq]
    rfl
  apart k q hidden hq := by
    rcases getElem?_snoc hq with hq | ⟨rfl, rfl⟩
    · exact h.apart k q hidden hq
    · exact hn
  shown k q hidden hq := by
    rcases getElem?_snoc hq with hq | ⟨rfl, rfl⟩
    · obtain ⟨hids, htree⟩ := h.shown k q hidden hq
      refine ⟨hids, ?_⟩
      rw [List.getElem?_append_left (List.getElem?_eq_some_iff.1 htree).1, htree]
    · exact absurd hk (Bool.eq_false_iff.1 hidden)

theorem snoc_shown (h : Linked r hidden f S b b') (hk : hidden b.trees.length = false)
    (hw : Mirrors f (S ++ n.site.ids) b.space.memory b'.space.memory)
    (hn : ∀ k q, hidden k = true → b.trees[k]? = some q → ∀ i ∈ q.site.ids, i ∉ n.site.ids) :
    Linked r hidden f (S ++ n.site.ids) { b with trees := b.trees ++ [n] }
      { b' with trees := b'.trees ++ [⟨n.plan, n.site.rename f⟩] } where
  mirrors := hw
  prototypes i hi := ⟨List.mem_append_left _ (h.prototypes i hi).1, (h.prototypes i hi).2⟩
  length_eq := by
    rw [List.length_append, List.length_append, h.length_eq]
    rfl
  apart k q hidden hq i hi := by
    rcases getElem?_snoc hq with hq | ⟨rfl, rfl⟩
    · obtain ⟨hlt, hnot⟩ := h.apart k q hidden hq i hi
      exact ⟨hlt, fun hmem => (List.mem_append.1 hmem).elim hnot (hn k q hidden hq i hi)⟩
    · exact absurd hidden (Bool.eq_false_iff.1 hk)
  shown k q hidden hq := by
    rcases getElem?_snoc hq with hq | ⟨rfl, rfl⟩
    · obtain ⟨hids, htree⟩ := h.shown k q hidden hq
      refine ⟨fun i hi => List.mem_append_left _ (hids hi), ?_⟩
      rw [List.getElem?_append_left (List.getElem?_eq_some_iff.1 htree).1, htree]
    · refine ⟨List.subset_append_right _ _, ?_⟩
      rw [← h.length_eq, List.getElem?_concat_length]

/-- A tree that was compiled on both. It belongs to what is the same, unless it is to be hidden. -/
theorem compiled {n' : Node} (h : Linked r hidden f S b b') (hplan : n'.plan = n.plan)
    (hc : Copied b.space.memory.next b'.space.memory.next b.space.memory b'.space.memory [n.site]
      [n'.site] w.memory w'.memory) :
    ∃ g T, Linked r hidden g T ⟨b.trees ++ [n], w⟩ ⟨b'.trees ++ [n'], w'⟩ := by
  -- What is older keeps its renaming, and the new tree is the same but for a shift.
  let g := graft f b.space.memory.next b'.space.memory.next
  have hmirrors : Mirrors g (S ++ n.site.ids) w.memory w'.memory := h.mirrors.graft hc
  have hnext := h.next (g := g) (fun i hi => graft_of_lt (h.mirrors.taken i hi))
    (hmirrors.mono (List.subset_append_left _ _)) hc.extend.next_le
  have hnew : ∀ i ∈ n.site.ids, b.space.memory.next ≤ i := fun i hi => (hc.shift_new hi).1
  cases hk : hidden b.trees.length with
  | true =>
    refine ⟨g, S, hnext.snoc_hidden hk (fun i hi => ?_) n'⟩
    refine ⟨hmirrors.taken i (List.mem_append_right _ hi), fun hmem => ?_⟩
    exact Nat.not_lt.2 (hnew i hi) (h.mirrors.taken i hmem)
  | false =>
    have hn' : n' = ⟨n.plan, n.site.rename g⟩ := by
      obtain ⟨p', s'⟩ := n'
      obtain rfl : p' = n.plan := hplan
      have hsite : s' = n.site.rename (shift _ _) := List.singleton_inj.1 hc.sites
      rw [hsite]
      exact congrArg _ (Site.rename_congr _ fun i hi => (graft_of_le (hnew i hi)).symm)
    rw [hn']
    refine ⟨g, _, hnext.snoc_shown hk hmirrors fun k q hidden hq i hi hmem => ?_⟩
    exact Nat.not_lt.2 (hnew i hmem) (h.apart k q hidden hq i hi).1

theorem visible_step (h : Linked r hidden f S b b') {a : Action} (ha : a.isOn hidden = false) :
    (b.act r a).1 = (b'.act r a).1 ∧
      ∃ g T, Linked r hidden g T (b.act r a).2 (b'.act r a).2 := by
  cases a with
  | compile input =>
    have hc : Copying id r.ids b.space.memory.next b'.space.memory.next b.space.memory
        b'.space.memory := by
      refine ⟨fun i hi => ?_, fun i hi => h.mirrors.taken i (h.prototypes i hi).1, fun i hi => ?_,
        .start _ _⟩
      · have hslot := h.mirrors.renamed i (h.prototypes i hi).1
        rwa [(h.prototypes i hi).2] at hslot
      · have hlt := h.mirrors.taken' i (h.prototypes i hi).1
        rwa [(h.prototypes i hi).2] at hlt
    have hrun := compile_twins hc input
    rw [Bench.act, Bench.act]
    rcases hx : r.compile input b.space with ⟨e | n, w⟩ <;>
      rcases hy : r.compile input b'.space with ⟨e' | n', w'⟩ <;> rw [hx, hy] at hrun
    · obtain ⟨rfl, hkept⟩ := hrun
      have hmirrors := h.mirrors.keep hkept (fun _ _ => List.not_mem_nil) fun _ _ =>
        List.not_mem_nil
      exact ⟨rfl, f, S, h.next (fun _ _ => rfl) hmirrors hkept.1.next_le⟩
    · exact hrun.elim
    · exact hrun.elim
    · obtain ⟨hplan, hcopied⟩ := hrun
      refine ⟨congrArg Reply.compiled ?_, h.compiled hplan hcopied⟩
      change n.plan.text w.memory n.site = n'.plan.text w'.memory n'.site
      rw [hplan, List.singleton_inj.1 hcopied.sites]
      exact Plan.text_rename hcopied.mirrors.renamed
  | prototype name call =>
    rw [Bench.act, Bench.act]
    cases hp : r.prototypes.lookup name with
    | none => exact ⟨rfl, f, S, h⟩
    | some p =>
      have hids : p.site.ids ⊆ S := fun i hi => (h.prototypes i (ids_of_lookup hp hi)).1
      have hself : p.site.rename f = p.site := by
        rw [Site.rename_congr (g := id) _ fun i hi => (h.prototypes i (ids_of_lookup hp hi)).2]
        exact Site.rename_eq_self (fun _ => rfl) _
      obtain ⟨hreply, hlinked⟩ := h.call_shown hids call
      rw [hself] at hreply hlinked
      exact ⟨hreply, f, S, hlinked⟩
  | tree k call =>
    rw [Bench.act, Bench.act]
    cases hn : b.trees[k]? with
    | none =>
      have hnone : b'.trees[k]? = none := by
        rw [List.getElem?_eq_none_iff] at hn ⊢
        rw [h.length_eq]
        exact hn
      rw [hnone]
      exact ⟨rfl, f, S, h⟩
    | some n =>
      obtain ⟨hids, htree⟩ := h.shown k n ha hn
      rw [htree]
      obtain ⟨hreply, hlinked⟩ := h.call_shown hids call
      exact ⟨hreply, f, S, hlinked⟩

theorem run (h : Linked r hidden f S b b') (actions : List Action) :
    (b.replies r actions).filter (fun e => !e.1.isOn hidden) =
        b'.replies r (actions.filter fun a => !a.isOn hidden) ∧
      ∃ g T, Linked r hidden g T (b.after r actions)
        (b'.after r (actions.filter fun a => !a.isOn hidden)) := by
  induction actions generalizing b b' f S with
  | nil => exact ⟨rfl, f, S, h⟩
  | cons a actions ih =>
    cases ha : a.isOn hidden with
    | true =>
      simp only [Bench.replies, List.filter_cons, ha, Bool.not_true, Bool.false_eq_true, if_false]
      exact ih (h.hidden_step ha)
    | false =>
      simp only [Bench.replies, List.filter_cons, ha, Bool.not_false, if_true]
      obtain ⟨hreply, g, T, hlinked⟩ := h.visible_step ha
      obtain ⟨hreplies, hrest⟩ := ih hlinked
      refine ⟨?_, hrest⟩
      rw [hreply, hreplies]

end Linked

/-- Compiled trees share nothing. Whatever was compiled and called before, a compilation takes a new
identity for every position of its tree, none of a prototype or of an earlier tree, and nothing in
the tree is fitted. So whichever compiled trees are left out, with all calls that were made on them,
everything else replies as it did: prototypes, later compilations and all other compiled trees. -/
theorem compiled_trees_isolated (r : Registry) (w : Workspace) (hw : r.InUse w.memory)
    (actions : List Action) :
    let b := Bench.after r ⟨[], w⟩ actions
    (∀ input n v, r.compile input b.space = (.ok n, v) →
      n.site.ids.Nodup ∧ (∀ q, n.Contains q → q.isFitted v.memory = false) ∧
        ∀ i ∈ n.site.ids, i ∉ r.ids ∧ ∀ t ∈ b.trees, i ∉ t.site.ids) ∧
    ∀ hidden : Nat → Bool,
      (Bench.replies r ⟨[], w⟩ actions).filter (fun e => !e.1.isOn hidden) =
        Bench.replies r ⟨[], w⟩ (actions.filter fun a => !a.isOn hidden) := by
  intro b
  refine ⟨fun input n v hn => ?_, fun hidden => ((Linked.start hidden hw).run actions).1⟩
  obtain ⟨-, f, S, hb⟩ := (Linked.start (fun _ => true) hw).run actions
  have hold : ∀ i ∈ r.ids, i < b.space.memory.next := fun i hi =>
    hb.mirrors.taken i (hb.prototypes i hi).1
  have hlays := compile_lays hold hn
  refine ⟨hlays.distinct, fun q hq => hq.isFitted_eq_false hlays, fun i hi => ⟨fun hmem => ?_,
    fun t ht hmem => ?_⟩⟩
  · exact Nat.not_lt.2 (hlays.new i hi) (hold i hmem)
  · obtain ⟨k, hk⟩ := List.mem_iff_getElem?.1 ht
    exact Nat.not_lt.2 (hlays.new i hi) (hb.apart k t rfl hk i hmem).1

/-- Two prototypes that share a node, one of them fitted, and two trees of which one is fitted. -/
theorem compiled_trees_isolated_shared :
    let a : Node := ⟨.element .identity, .mk 0 []⟩
    let pair : Node := ⟨.sequential [.element .identity, .element .identity],
      .mk 2 [.mk 0 [], .mk 1 []]⟩
    let r : Registry := ⟨[("a", a), ("pair", pair)], []⟩
    let w : Workspace := ⟨⟨#[⟨.text "x", some [], .nothing⟩, .fresh (.text "y"),
      .fresh (.text "pair")]⟩, [], false⟩
    let env : Surroundings := ⟨.error (.unusable .value), .builtin⟩
    let X : Data := .frame ⟨[.int 0], []⟩
    let before : List Action := [.compile (.text "pair + a"), .compile (.text "a |> a")]
    let calls : List Action := [.tree 0 (.fit env X (.plain .null)), .tree 0 (.transform X)]
    let later : List Action := [.compile (.text "pair"), .tree 1 (.transform X),
      .prototype "pair" (.transform X)]
    r.InUse w.memory ∧ a.isFitted w.memory = true ∧
    (Bench.after r ⟨[], w⟩ (before ++ calls)).trees.length = 2 ∧
    (Bench.replies r ⟨[], w⟩ (before ++ calls ++ later)).filter
        (fun e => !e.1.isOn fun k => k == 0) =
      Bench.replies r ⟨[], w⟩ (before ++ later) ∧
    ∃ n v, r.compile (.text "pair") (Bench.after r ⟨[], w⟩ (before ++ calls)).space = (.ok n, v) ∧
      n.site.ids.Nodup ∧ n.isFitted v.memory = false := by
  intro a pair r w env X before calls later
  have hw : r.InUse w.memory := by decide
  have hall := (compiled_trees_isolated r w hw (before ++ calls ++ later)).2 fun k => k == 0
  have hparse : Expression.parse "pair" = .ok (.identifier "pair" 0) := by cbv
  have hcompile : ∀ u, r.compile (.text "pair") u = r.compile (.tree (.identifier "pair" 0)) u := by
    intro u
    rw [compile, compile, ExpressionInput.expr, hparse, ExpressionInput.expr]
  obtain ⟨n, v, hn⟩ : ∃ n v, r.compile (.text "pair")
      (Bench.after r ⟨[], w⟩ (before ++ calls)).space = (.ok n, v) := ⟨_, _, hcompile _⟩
  obtain ⟨hdistinct, hfitted, -⟩ :=
    (compiled_trees_isolated r w hw (before ++ calls)).1 (.text "pair") n v hn
  exact ⟨hw, rfl, by decide +kernel, hall, n, v, hn, hdistinct, hfitted n (.self n)⟩

end Registry
end ColumnFlow
