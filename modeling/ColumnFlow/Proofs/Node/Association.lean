import ColumnFlow.Node.Elements
import ColumnFlow.Proofs.Node.Equivalence
import ColumnFlow.Transform.Selection

/-!
# Sequences are associative

A sequence inside a sequence is trained as its parts would be in its place, so it does not matter
how the parts of a sequence are grouped. A passthrough is trained like a sequence of no parts, so it
does not matter in front of any part.
-/
namespace ColumnFlow

namespace Trainer

variable {X Z : Frame} {y y' : Option Series} {rs : List Trained} {e : Failure}

/-- The results of a group, as one, are interchangeable with the results themselves. -/
theorem interchangeable_group {group after : List Trained} {q : Trained} {rest : List Trained}
    (hhead : group ++ after = q :: rest) (hq : q.guarded X.labels = q) :
    Trained.Interchangeable ((Trained.sequence group).guarded X.labels :: after)
      (group ++ after) := by
  refine ⟨by simp [Trained.guarded, Trained.sequence], fun hfitted Z => ?_⟩
  have hall : (group ++ after).all (·.fitted) = true := by
    simpa [Trained.guarded, Trained.sequence] using hfitted
  have hgroup : group.all (·.fitted) = true := by
    rw [List.all_append, Bool.and_eq_true] at hall
    exact hall.1
  by_cases hcolumns : X.labels.all Z.has = true
  · rw [Trained.chained_append]
    simp only [Trained.chained, Trained.guarded, Trained.sequence, hgroup, hcolumns, if_true,
      Bool.not_true, Bool.false_eq_true, if_false]
  · -- The group refuses the frame, and so does its first part.
    have hqfitted : q.fitted = true := by
      rw [hhead, List.all_cons, Bool.and_eq_true] at hall
      exact hall.1
    rw [hhead, Trained.chained, Trained.chained, ← hq]
    simp only [Trained.guarded, Trained.sequence, hgroup, hqfitted, hcolumns, Bool.not_true,
      Bool.false_eq_true, if_false]
    rfl

section Nest

variable {before group after : List Trainer}

theorem chain_nest {β : Type} (hgroup : ∀ t ∈ group, Regular t) (hafter : ∀ t ∈ after, Regular t)
    (hne : group ++ after ≠ []) (k : List Trained → β)
    (hk : ∀ rs rs', Trained.Interchangeable rs rs' → k rs = k rs') :
    (chain (sequential group :: after) X y).map k = (chain (group ++ after) X y).map k := by
  have hall : ∀ t ∈ group ++ after, Regular t := by
    intro t ht
    exact (List.mem_append.1 ht).elim (hgroup t) (hafter t)
  cases hy : alignTarget y X with
  | error e =>
    have hfirst : sequential group X y = .error e.kind := fitting_of_refused hy
    rw [chain_refused hall hne hy]
    cases after <;> simp only [chain, hfirst] <;> rfl
  | ok y' =>
    have hfirst : sequential group X y = (chain group X y).map fun rs =>
        (Trained.sequence rs).guarded X.labels := by
      unfold sequential
      rw [fitting_of_aligned hy]
      simp only [chain_aligned hgroup hy X]
      rcases chain group X y with e | rs <;> rfl
    cases after with
    | nil =>
      rw [List.append_nil] at hne hall ⊢
      simp only [chain, hfirst]
      rcases hrs : chain group X y with e | rs
      · rfl
      · obtain ⟨q, rest, hhead, hq⟩ := chain_head hall hne hrs
        have hsame : Trained.Interchangeable ((Trained.sequence rs).guarded X.labels :: [])
            (rs ++ []) := interchangeable_group ((List.append_nil rs).trans hhead) hq
        rw [List.append_nil] at hsame
        exact congrArg Except.ok (hk _ _ hsame)
    | cons u after =>
      have happend : chain (group ++ u :: after) X y = through group X y >>= fun reached => do
          return reached.1 ++ (← chain (u :: after) reached.2 y) := chain_append (by simp)
      rw [← chain_answer hgroup] at happend
      rw [chain, hfirst, happend]
      simp only [bind, Except.bind, pure, Except.pure] at happend ⊢
      rcases hrs : chain group X y with e | rs
      · rfl
      · rw [hrs] at happend
        simp only [Except.map] at happend ⊢
        rcases hZ : ((Trained.sequence rs).guarded X.labels).answer X with e | Z
        · rfl
        · rw [hZ] at happend
          simp only at happend ⊢
          rcases hus : chain (u :: after) Z y with e | us
          · rfl
          · rw [hus] at happend
            obtain ⟨q, rest, hhead, hq⟩ := chain_head hall (by simp) happend
            exact congrArg Except.ok (hk _ _ (interchangeable_group hhead hq))

/-- A chain may be nested in a chain, in any place. The nested chain may be empty if some trainer
comes after it. -/
theorem sequential_nest (hgroup : ∀ t ∈ group, Regular t) (hafter : ∀ t ∈ after, Regular t)
    (hne : group ++ after ≠ []) :
    sequential (before ++ sequential group :: after) = sequential (before ++ (group ++ after)) := by
  funext X y
  cases hy : alignTarget y X with
  | error e =>
    have hrefused : ∀ ts, sequential ts X y = .error e.kind := fun ts => fitting_of_refused hy
    rw [hrefused, hrefused]
  | ok y' =>
    have hrun : ∀ ts, sequential ts X y = (chain ts X y').map fun rs =>
        (Trained.sequence rs).guarded X.labels := by
      intro ts
      refine (fitting_of_aligned hy).trans ?_
      rcases chain ts X y' with e | rs <;> rfl
    rw [hrun, hrun, chain_append (by simp), chain_append hne]
    simp only [bind, Except.bind, pure, Except.pure]
    rcases through before X y' with e | ⟨rs, Z⟩
    · rfl
    · have hnest := chain_nest (X := Z) (y := y') hgroup hafter hne
        (fun us => (Trained.sequence (rs ++ us)).guarded X.labels)
        fun us us' h => h.guarded_eq X.labels
      have hmap : ∀ o : Except String (List Trained),
          (o >>= fun us => Except.ok (rs ++ us)).map
            (fun us => (Trained.sequence us).guarded X.labels) =
              o.map fun us => (Trained.sequence (rs ++ us)).guarded X.labels := by
        intro o
        rcases o with e | us <;> rfl
      exact (hmap _).trans (hnest.trans (hmap _).symm)

end Nest

end Trainer

namespace Node

variable {env : Surroundings} {w v : Workspace} {g noop : Node} {before group after : List Node}
  {build : Work Node} {X : Frame} {y : Option Series}

/-- A part that is trained like a sequence of others may stand for them. -/
theorem sequential_absorbs (hbuild : build w = (.ok g, v))
    (hext : Memory.Extends [] w.memory v.memory)
    (hg : train env v g = .sequential (group.map (train env w)))
    (hids : w.memory.Holds (Site.idsOf (sites (before ++ (group ++ after)))))
    (hids' : v.memory.Holds (Site.idsOf (sites (before ++ g :: after))))
    (hlen : 2 ≤ (before ++ (group ++ after)).length) (hlen' : 2 ≤ (before ++ g :: after).length)
    (hne : group ++ after ≠ []) (name outer : Label) :
    Equivalent env w (sequential ((before ++ (group ++ after)).map Part.node) name)
      (do
        let g ← build
        sequential ((before ++ g :: after).map Part.node) outer) := by
  obtain ⟨n, u, hn, hflat⟩ := sequential_composed env name hlen hids
  obtain ⟨n', u', hn', hnested⟩ := sequential_composed env outer hlen' hids'
  have hbuild' : (do
      let g ← build
      sequential ((before ++ g :: after).map Part.node) outer) w = (.ok n', u') := by
    rw [Work.run_bind, hbuild]
    exact hn'
  refine equivalent_of_train hn hbuild' ?_
  rw [sites_append, sites_append, Site.idsOf_append, Site.idsOf_append] at hids
  have hafter := hids.right.right
  rw [hflat.train, hnested.train]
  simp only [List.map_append, List.map_cons, hg]
  rw [map_train_extend hext hids.left.taken (by simp), map_train_extend hext hafter.taken (by simp)]
  refine (Trainer.sequential_nest (regular_trainers hids.right.left)
    (regular_trainers hafter) ?_).symm
  simpa using hne

/-- A transformer whose slot holds what its columns were and what it has learned. -/
theorem trained_transformer {t : Transformer} {s : Site} {m : Memory} {name : Label}
    {columns : List Label} {f : Fitted} (h : m.slot s.id = ⟨name, some columns, .fitted f⟩) :
    trained m ⟨.transformer t, s⟩ =
      Trained.guarded columns ⟨true, fun Z => Failure.byKind (f.run Z).outcome⟩ := by
  have hcolumns : m.inputColumns s = some columns := by rw [Memory.inputColumns, h]
  have hfitted : Plan.isFitted m (.transformer t) s = true := by
    simp only [Plan.isFitted, Memory.hasInput, Memory.isFittedLeaf, hcolumns, h]
    rfl
  unfold trained isFitted
  simp only [hfitted, Plan.transform, guarded_outcome hcolumns, Memory.applyFitted, h]
  rfl

/-- A passthrough is fitted whenever its target fits, and answers with what it is given. -/
theorem train_passthrough {options : Options}
    (hplan : noop.plan = .transformer (Passthrough.passthrough options))
    (hid : noop.site.id < w.memory.next) : train env w noop = .sequential [] := by
  obtain ⟨plan, s⟩ := noop
  obtain rfl : plan = _ := hplan
  funext X y
  unfold train Trainer.sequential
  rw [Plan.fit, Work.ended_fitting]
  unfold Trainer.fitting
  congr 1
  funext y
  let f : Fitted := ⟨[(.text "type", .text "passthrough"), (.text "columns", .ofLabels X.labels)],
    Passthrough.apply, fun _ _ => false⟩
  let started := w.memory.withInput s none
  have hstarted : s.id < started.next := by
    unfold started Memory.withInput
    rw [Memory.next_update]
    exact hid
  have hlearned : s.id < (started.withLearned s (.fitted f)).next := by
    unfold Memory.withLearned
    rw [Memory.next_update]
    exact hstarted
  have hslot : ((started.withLearned s (.fitted f)).withInput s (some X.labels)).slot s.id =
      ⟨w.memory.label s, some X.labels, .fitted f⟩ := by
    rw [Memory.slot_withInput_self hlearned, Memory.withLearned, Memory.slot_update_self hstarted,
      Memory.slot_withInput_self hid]
    rfl
  exact congrArg Except.ok (trained_transformer hslot)

/-- The chain of a sequence may be grouped in any way: any two or more neighbours among its parts,
but not all of them, may make a sequence of their own. And a passthrough may be put in front of any
part. Nobody can tell the difference. -/
theorem sequential_associative (env : Surroundings) (w : Workspace) (name inner outer : Label) :
    (∀ before group after : List Node, 2 ≤ group.length → before ++ after ≠ [] →
      w.memory.Holds (Site.idsOf (sites (before ++ (group ++ after)))) →
        Equivalent env w (sequential ((before ++ (group ++ after)).map Part.node) name)
          (do
            let g ← sequential (group.map Part.node) inner
            sequential ((before ++ g :: after).map Part.node) outer)) ∧
    ∀ (before after : List Node) (noop : Node) (options : Options),
      noop.plan = .transformer (Passthrough.passthrough options) → after ≠ [] →
      2 ≤ (before ++ after).length →
      w.memory.Holds (Site.idsOf (sites (before ++ noop :: after))) →
        Equivalent env w (sequential ((before ++ after).map Part.node) name)
          (sequential ((before ++ noop :: after).map Part.node) outer) := by
  refine ⟨fun before group after hgroup hothers hids => ?_,
    fun before after noop options hplan hafter hlen hids => ?_⟩
  · have hinner := hids
    rw [sites_append, sites_append, Site.idsOf_append, Site.idsOf_append] at hinner
    obtain ⟨g, v, hg, hcomposed⟩ :=
      sequential_composed env inner hgroup hinner.right.left
    have hcount : 0 < (before ++ after).length := List.length_pos_iff.2 hothers
    have hne : group ++ after ≠ [] := List.append_ne_nil_of_left_ne_nil
      (List.length_pos_iff.1 (Nat.lt_of_lt_of_le Nat.zero_lt_two hgroup)) after
    refine sequential_absorbs hg hcomposed.extend hcomposed.train hids
      (hcomposed.holds_among hids) ?_ ?_ hne name outer
    · simp only [List.length_append] at hcount ⊢
      omega
    · simp only [List.length_append, List.length_cons] at hcount ⊢
      omega
  · have hall : (Site.idsOf (sites (before ++ after))).Sublist
        (Site.idsOf (sites (before ++ noop :: after))) := by
      rw [sites_append, sites_append, Site.idsOf_append, Site.idsOf_append]
      exact (List.sublist_append_right noop.site.ids _).append_left _
    have hid : noop.site.id < w.memory.next := by
      refine hids.taken _ (Site.mem_idsOf.2 ⟨noop.site, ?_, noop.site.id_mem_ids⟩)
      exact List.mem_map_of_mem (by simp)
    have hlen' : 2 ≤ (before ++ noop :: after).length := by
      simp only [List.length_append, List.length_cons] at hlen ⊢
      omega
    change Equivalent env w (sequential ((before ++ ([] ++ after)).map Part.node) name) (do
      let noop ← pure noop
      sequential ((before ++ noop :: after).map Part.node) outer)
    have hne : ([] : List Node) ++ after ≠ [] := hafter
    exact sequential_absorbs rfl (.refl [] w.memory) (train_passthrough hplan hid)
      (hids.sublist hall) hids hlen hlen' hne name outer

/-- The last two of three parts as a sequence of their own, and a passthrough before the last. -/
theorem sequential_associative_three :
    let keep : Nat → Node := fun i => ⟨.element .identity, .mk i []⟩
    let drop : Node := ⟨.element (.dropRows (.int 1)), .mk 1 []⟩
    let noop : Node := ⟨.transformer (Passthrough.passthrough []), .mk 3 []⟩
    let w : Workspace :=
      ⟨⟨#[.fresh (.text "a"), .fresh (.text "b"), .fresh (.text "c"), .fresh (.text "noop")]⟩, [],
        false⟩
    let env : Surroundings := ⟨.error (.unusable .value), .builtin⟩
    let flat := sequential ([keep 0, drop, keep 2].map Part.node) .null
    Equivalent env w flat
        (do
          let g ← sequential ([drop, keep 2].map Part.node) .null
          sequential ([keep 0, g].map Part.node) .null) ∧
      Equivalent env w flat (sequential ([keep 0, drop, noop, keep 2].map Part.node) .null) := by
  intro keep drop noop w env flat
  have h := sequential_associative env w .null .null .null
  exact ⟨h.1 [keep 0] [drop, keep 2] [] (by decide) (by simp) ⟨by decide, by decide⟩,
    h.2 [keep 0, drop] [keep 2] noop [] rfl (by simp) (by decide) ⟨by decide, by decide⟩⟩

end Node
end ColumnFlow
