import ColumnFlow.Proofs.Node.Failing

/-!
# Where knowledge comes from

A transformer that remembers columns, and has learned something, has learned it from a frame with
these columns. A fit forgets the columns first and remembers the new ones last, so it keeps this at
every node of its tree, whether it succeeds or not. Trees may share nodes; a roster says which
identities are transformers.
-/
namespace ColumnFlow

/-- What may have been learned from columns with some labels. -/
def Transformer.Teaches (t : Transformer) (labels : List Label) (f : Fitted) : Prop :=
  ∃ X : Frame, X.labels = labels ∧ (t.calculate X).outcome = .ok (some f)

def Plan.transformer? : Plan → Option Transformer
  | .transformer t => some t
  | _ => none

/-- Which identities are those of transformers, and of which. -/
def Roster := Nat → Option Transformer

def Roster.Lists (r : Roster) (n : Node) : Prop := r n.site.id = n.plan.transformer?

namespace Node

theorem of_mem_zipParts {ps : List Plan} {ss : List Site} {q : Node} (hq : q ∈ zipParts ps ss) :
    q.plan ∈ ps ∧ q.site ∈ ss := by
  unfold zipParts at hq
  rw [← List.map_uncurry_zip_eq_zipWith] at hq
  obtain ⟨⟨p, s⟩, hmem, rfl⟩ := List.mem_map.1 hq
  exact List.of_mem_zip hmem

/-- What holds of a node whenever it holds of its parts holds of all nodes. -/
theorem induction {motive : Node → Prop} (step : ∀ n, (∀ q ∈ n.parts, motive q) → motive n)
    (n : Node) : motive n := by
  obtain ⟨p, s⟩ := n
  induction p using Plan.induction generalizing s with
  | transformer t | learner l | element e => exact step _ fun q hq => nomatch hq
  | sequential ps ih | parallel ps ih | vote ps ih | best ps policy ih =>
    exact step _ fun q hq => ih q.plan (of_mem_zipParts hq).1 q.site
  | stack t ps settings iht ih =>
    refine step _ fun q hq => ?_
    rcases List.mem_cons.1 hq with rfl | hq
    · exact iht _
    · exact ih q.plan (of_mem_zipParts hq).1 q.site
  | bagging t settings ih =>
    refine step _ fun q hq => ?_
    obtain ⟨r, -, rfl⟩ := List.mem_map.1 hq
    exact ih r

inductive Throughout (P : Node → Prop) : Node → Prop
  | node {n : Node} : P n → (∀ q ∈ n.parts, Throughout P q) → Throughout P n

namespace Throughout

variable {P : Node → Prop} {n q : Node}

theorem self (h : Throughout P n) : P n := by
  cases h with
  | node hself _ => exact hself

theorem part (h : Throughout P n) (hq : q ∈ n.parts) : Throughout P q := by
  cases h with
  | node _ hparts => exact hparts q hq

end Throughout

end Node

/-- Below a bound, what transformers know they learned from frames with the columns they
remember. -/
structure Memory.Taught (r : Roster) (b : Nat) (m : Memory) : Prop where
  room : b ≤ m.next
  source : ∀ i t labels f, i < b → r i = some t → (m.slot i).inputColumns = some labels →
    (m.slot i).learned = .fitted f → t.Teaches labels f

namespace Memory

variable {r : Roster} {b : Nat} {m m' : Memory} {s : Site} {i : Nat}

theorem Taught.lasting (r : Roster) (b : Nat) : Lasting (Taught r b) := fun m m' hm h =>
  { room := Nat.le_trans h.room hm.next_le
    source := fun i t labels f hi => by
      rw [hm.slot_eq i (Nat.lt_of_lt_of_le hi h.room) List.not_mem_nil]
      exact h.source i t labels f hi }

/-- A node that writes to its own slot has to account for what stands there then. -/
theorem Taught.write (h : Taught r b m) (hm : m'.next = m.next)
    (hothers : ∀ i, i ≠ s.id → m'.slot i = m.slot i)
    (hself : ∀ t labels f, r s.id = some t → (m'.slot s.id).inputColumns = some labels →
      (m'.slot s.id).learned = .fitted f → t.Teaches labels f) : Taught r b m' where
  room := hm ▸ h.room
  source i t labels f hi ht := by
    by_cases heq : i = s.id
    · rw [heq] at ht ⊢
      exact hself t labels f ht
    · rw [hothers i heq]
      exact h.source i t labels f hi ht

theorem Taught.withInput_none (h : Taught r b m) (hs : s.id < m.next) :
    Taught r b (m.withInput s none) := by
  refine h.write (next_update m _ _) (fun i hi => slot_withInput_of_ne hi)
    fun t labels f _ hlabels => ?_
  rw [slot_withInput_self hs] at hlabels
  cases hlabels

theorem Taught.remember {t : Transformer} {X : Frame} {fitted : Option Fitted} (h : Taught r b m)
    (ht : r s.id = some t) (hs : s.id < m.next) (hX : (t.calculate X).outcome = .ok fitted) :
    Taught r b (((m.withInput s none).withLearned s (fitted.elim .nothing .fitted)).withInput s
      (some X.labels)) := by
  have hfirst : (m.withInput s none).next = m.next := next_update _ _ _
  have hnext : ((m.withInput s none).withLearned s (fitted.elim .nothing .fitted)).next = m.next :=
    (next_update _ _ _).trans hfirst
  refine h.write (s := s) ((next_update _ _ _).trans hnext) (fun i hi => ?_)
    fun t' labels f ht' hlabels hf => ?_
  · exact (slot_withInput_of_ne hi).trans ((slot_update_of_ne hi).trans (slot_withInput_of_ne hi))
  · obtain rfl : t = t' := Option.some.inj (ht.symm.trans ht')
    have hlearned := learned_withLearned (hfirst ▸ hs) (fitted.elim .nothing .fitted)
    unfold learned at hlearned
    rw [slot_withInput_self (hnext ▸ hs)] at hlabels hf
    dsimp only at hlabels hf
    rw [hlearned] at hf
    refine ⟨X, Option.some.inj hlabels, ?_⟩
    cases fitted with
    | none => cases hf
    | some g =>
      obtain rfl : g = f := Learned.fitted.inj hf
      exact hX

theorem slot_of_next_le (h : m.next ≤ i) : m.slot i = .fresh (.text "") := by
  unfold next at h
  simp [slot, h]

end Memory

namespace Work

variable {I : Memory → Prop} {s : Site} {X : Frame} {y : Option Series}
  {body : Option Series → Work Unit}

theorem Keeps.fitting (hinput : ∀ columns, Keeps I (setInput s columns))
    (hbody : ∀ y, Keeps I (body y)) : Keeps I (fitting s X y body) := by
  unfold Work.fitting
  refine .bind (.steady (.except _)) fun y => (hinput none).bind fun _ => ?_
  exact (hbody y).bind fun _ => hinput (some X.labels)

end Work

namespace Plan

variable {r : Roster} {b : Nat} {s : Site}

theorem fit_transformer_taught (env : Surroundings) (t : Transformer) (X : Frame)
    (y : Option Series) (ht : r s.id = some t) (hs : s.id < b) :
    Work.Keeps (Memory.Taught r b) (fit env (.transformer t) s X y) := by
  intro w hw
  have hlt : s.id < w.memory.next := Nat.lt_of_lt_of_le hs hw.room
  simp only [fit]
  unfold Work.fitting
  cases alignTarget y X with
  | error e => exact hw
  | ok target =>
    rw [Work.run_ok_bind, Work.run_setInput_bind]
    rcases hlearned : t.calculate X with ⟨notices, e | fitted⟩
    · exact hw.withInput_none hlt
    · exact hw.remember ht hlt (by rw [hlearned])

/-- Fits keep where knowledge comes from, by induction over the tree. -/
theorem fit_taught (env : Surroundings) (n : Node) (h : n.Throughout r.Lists)
    (hids : ∀ i ∈ n.site.ids, i < b) (X : Frame) (y : Option Series) :
    Work.Keeps (Memory.Taught r b) (fit env n.plan n.site X y) := by
  induction n using Node.induction generalizing X y with
  | step n ih =>
  have hs : n.site.id < b := hids _ n.site.id_mem_ids
  -- A transformer has to account for what it writes; what other nodes write is not asked for.
  cases ht : n.plan.transformer? with
  | some t =>
    obtain ⟨plan, s⟩ := n
    cases plan <;> cases ht
    exact fit_transformer_taught env t X y h.self hs
  | none =>
    have hnone : r n.site.id = none := h.self.trans ht
    have hown : ∀ f : Slot → Slot,
        Work.Keeps (Memory.Taught r b) (Work.updateSlot n.site.id f) := by
      intro f w hw
      refine hw.write (s := n.site) (Memory.next_update _ _ _)
        (fun i hi => Memory.slot_update_of_ne hi) fun t labels f ht => ?_
      rw [hnone] at ht
      cases ht
    have htaken : ∀ m, Memory.Taught r b m → ∀ i ∈ n.site.ids, i < m.next := fun m hm i hi =>
      Nat.lt_of_lt_of_le (hids i hi) hm.room
    have hparts : ∀ q ∈ n.parts, ∀ X y,
        Work.Keeps (Memory.Taught r b) (fit env q.plan q.site X y) := fun q hq X y =>
      ih q hq (h.part hq) (fun i hi => hids i (Node.ids_of_mem_parts hq hi)) X y
    obtain ⟨body, hfit, hbody⟩ := exists_body_keeps (Memory.Taught.lasting r b) env n.plan n.site X
      htaken (fun l => hown _) hparts
    rw [hfit]
    exact .fitting (fun _ => hown _) hbody

end Plan

theorem Door.fit_keeps {I : Memory → Prop} {env : Surroundings} {n : Node}
    (h : ∀ F y, Work.Keeps I (n.plan.fit env n.site F y)) (X y : Data) (door : Door) :
    Work.Keeps I (door.fit env n X y) := by
  have hnode : ∀ X, Work.Keeps I (n.fit env X y) := by
    intro X w hw
    rcases fit_node env n X y w with ⟨F, target, -, -, hrun⟩ | ⟨e, -, hrun⟩ <;> rw [hrun]
    · exact h F target w hw
    · exact hw
  cases door with
  | node => exact hnode X
  | executor =>
    intro w hw
    change I (Executor.fit env n X y w).2.memory
    rcases fit_executor env n X y w with ⟨F, -, hrun⟩ | ⟨e, -, hrun⟩ <;> rw [hrun]
    · exact hnode (.frame F) w hw
    · exact hw

/-- What can become of the nodes on a roster. First none of them has been fitted. Then trees of them
are fitted, with and without success, on any data; and anything else can happen that does not touch
what they remember and what they have learned. -/
inductive Roster.Reaches (r : Roster) : Workspace → Prop
  | start {w : Workspace} :
    (∀ i, (r i).isSome = true → (w.memory.slot i).inputColumns = none) → Reaches r w
  | fit {w : Workspace} (env : Surroundings) (n : Node) (X y : Data) (door : Door) :
    Reaches r w → n.Throughout r.Lists → (∀ i ∈ n.site.ids, i < w.memory.next) →
      (∀ i, w.memory.next ≤ i → i < (door.fit env n X y w).2.memory.next → r i = none) →
      Reaches r (door.fit env n X y w).2
  | other {w v : Workspace} :
    Reaches r w →
      (∀ i, (r i).isSome = true →
        (v.memory.slot i).inputColumns = (w.memory.slot i).inputColumns ∧
          (v.memory.slot i).learned = (w.memory.slot i).learned) →
      Reaches r v

/-- Whatever has become of them, transformers on a roster learned what they know from frames with
the columns that they remember. -/
theorem Roster.Reaches.teaches {r : Roster} {w : Workspace} (h : r.Reaches w) {i : Nat}
    {t : Transformer} {labels : List Label} {f : Fitted} (ht : r i = some t)
    (hlabels : (w.memory.slot i).inputColumns = some labels)
    (hf : (w.memory.slot i).learned = .fitted f) : t.Teaches labels f := by
  induction h generalizing i t labels f with
  | start hnew =>
    rw [hnew i (Option.isSome_of_eq_some ht)] at hlabels
    cases hlabels
  | @fit w env n X y door _ hlisted htaken hnew ih =>
    have htaught : Memory.Taught r w.memory.next w.memory :=
      ⟨Nat.le_refl _, fun i t labels f _ => ih⟩
    have hkept := Door.fit_keeps (fun F y => Plan.fit_taught env n hlisted htaken F y) X y door w
      htaught
    by_cases hi : i < w.memory.next
    · exact hkept.source i t labels f hi ht hlabels hf
    -- The candidates that were tried out are not on the roster.
    · by_cases hlt : i < (door.fit env n X y w).2.memory.next
      · rw [hnew i (Nat.not_lt.1 hi) hlt] at ht
        cases ht
      · rw [Memory.slot_of_next_le (Nat.not_lt.1 hlt)] at hlabels
        cases hlabels
  | other _ hsame ih =>
    obtain ⟨hcolumns, hlearned⟩ := hsame i (Option.isSome_of_eq_some ht)
    exact ih ht (hcolumns ▸ hlabels) (hlearned ▸ hf)

end ColumnFlow
