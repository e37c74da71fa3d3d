import ColumnFlow.Node.Elements
import ColumnFlow.Proofs.Frame.Concatenation
import ColumnFlow.Proofs.Node.Equivalence

/-!
# Sequences distribute over parallels

A node in front of several parts side by side may as well stand in front of each of them, as a copy
of its own, if it keeps the row labels and the parts keep the number of rows.
-/
namespace ColumnFlow

namespace Trained

variable {r : Trained} {rs qs : List Trained} {columns : List Label} {X Z U V : Frame}
  {outputs : List Frame}

theorem joined_of_rows (h : ∀ f ∈ outputs, f.rows = Z.rows) (names : List Label) :
    joined names outputs Z = .ok (Frame.sideBySide outputs Z) := by
  rw [← Node.joined_eq .empty (.mk 0 []) names outputs Z, Memory.concatenate_of_rows h]
  rfl

/-- The row labels alone tell what several outputs give side by side. -/
theorem joined_of_index (hindex : V.index = Z.index) (h : ∀ f ∈ outputs, f.rows = V.rows)
    (names names' : List Label) : joined names outputs V = joined names' outputs Z := by
  have hrows : V.rows = Z.rows := congrArg List.length hindex
  rw [joined_of_rows h, joined_of_rows fun f hf => (h f hf).trans hrows]
  unfold Frame.sideBySide
  rw [hindex]

theorem mem_answers (h : answers qs V = .ok outputs) :
    ∀ f ∈ outputs, ∃ q ∈ qs, q.answer V = .ok f := by
  induction qs generalizing outputs with
  | nil =>
    obtain rfl := Except.ok.inj h
    simp
  | cons q qs ih =>
    rcases hU : q.answer V with e | U
    · simp only [answers, hU, bind, Except.bind] at h
      cases h
    · rcases hrest : answers qs V with e | rest
      · simp only [answers, hU, hrest, bind, Except.bind] at h
        cases h
      · simp only [answers, hU, hrest, bind, Except.bind, pure, Except.pure] at h
        obtain rfl := Except.ok.inj h
        intro f hf
        rcases List.mem_cons.1 hf with rfl | hf
        · exact ⟨q, by simp, hU⟩
        · obtain ⟨p, hp, hanswer⟩ := ih hrest f hf
          exact ⟨p, by simp [hp], hanswer⟩

/-- Some results, each after one other result. -/
def eachAfter (r : Trained) (columns : List Label) (qs : List Trained) : List Trained :=
  qs.map fun q => (sequence [r, q]).guarded columns

theorem all_fitted_eachAfter (hne : qs ≠ []) :
    (eachAfter r columns qs).all (·.fitted) = (r.fitted && qs.all (·.fitted)) := by
  have hmember : ∀ q : Trained,
      ((sequence [r, q]).guarded columns).fitted = (r.fitted && q.fitted) := by
    intro q
    simp [guarded, sequence]
  unfold eachAfter
  rw [List.all_map]
  cases hr : r.fitted with
  | true =>
    rw [Bool.true_and]
    exact List.all_congr rfl fun q => by simp [hmember, hr]
  | false =>
    obtain ⟨q, rest, rfl⟩ := List.exists_cons_of_ne_nil hne
    simp [hmember, hr]

theorem answer_after {q : Trained} (hr : r.fitted = true) (hq : q.fitted = true)
    (hZ : columns.all Z.has = true) :
    ((sequence [r, q]).guarded columns).answer Z = r.answer Z >>= q.answer := by
  simp only [guarded, sequence, List.all_cons, List.all_nil, hr, hq, hZ, Bool.and_self,
    Bool.not_true, Bool.false_eq_true, if_false, if_true, chained]
  rcases r.answer Z with e | V
  · rfl
  · rcases hU : q.answer V with e | U <;> simp only [bind, Except.bind, hU]

theorem answers_eachAfter (hr : r.fitted = true) (hqs : qs.all (·.fitted) = true) (hne : qs ≠ [])
    (hZ : columns.all Z.has = true) :
    answers (eachAfter r columns qs) Z = r.answer Z >>= answers qs := by
  unfold eachAfter
  induction qs with
  | nil => exact absurd rfl hne
  | cons q qs ih =>
    rw [List.all_cons, Bool.and_eq_true] at hqs
    rw [List.map_cons, answers, answer_after hr hqs.1 hZ]
    rcases hV : r.answer Z with e | V
    · rfl
    · simp only [bind, Except.bind, answers]
      rcases q.answer V with e | U
      · rfl
      · dsimp only
        by_cases hrest : qs = []
        · rw [hrest]
          rfl
        · rw [ih hqs.2 hrest, hV]
          rfl

/-- One result before some results side by side answers like each of them after it, side by side. -/
theorem parallel_eachAfter (hne : qs ≠ []) (hqs : ∀ q ∈ qs, q.guarded U.labels = q)
    (hindex : ∀ Z V, r.answer Z = .ok V → V.index = Z.index)
    (hrows : ∀ q ∈ qs, ∀ V W, q.answer V = .ok W → W.rows = V.rows) (names names' : List Label) :
    (sequence [r, (parallel names qs).guarded U.labels]).guarded columns =
      (parallel names' (eachAfter r columns qs)).guarded columns := by
  have hfitted : (parallel names' (eachAfter r columns qs)).fitted =
      (r.fitted && qs.all (·.fitted)) := all_fitted_eachAfter hne
  have hfitted' : (sequence [r, (parallel names qs).guarded U.labels]).fitted =
      (r.fitted && qs.all (·.fitted)) := by simp [sequence, guarded, parallel]
  unfold guarded at hfitted' ⊢
  rw [hfitted, hfitted']
  congr 1
  funext Z
  by_cases hall : (r.fitted && qs.all (·.fitted)) = true
  · by_cases hZ : columns.all Z.has = true
    · rw [Bool.and_eq_true] at hall
      simp only [hall.1, hall.2, Bool.and_self, Bool.not_true, Bool.false_eq_true, if_false, hZ,
        if_true, sequence, chained, parallel, answers_eachAfter hall.1 hall.2 hne hZ]
      rcases hV : r.answer Z with e | V
      · rfl
      · simp only [bind, Except.bind]
        by_cases hV' : U.labels.all V.has = true
        · simp only [hV', if_true]
          rcases houtputs : answers qs V with e | outputs
          · rfl
          · have hkept : ∀ f ∈ outputs, f.rows = V.rows := by
              intro f hf
              obtain ⟨q, hq, hanswer⟩ := mem_answers houtputs f hf
              exact hrows q hq V f hanswer
            dsimp only
            rw [joined_of_index (hindex Z V hV) hkept names names']
            rcases joined names' outputs Z with e | W <;> rfl
        · -- What the parts lack together, the first of them lacks.
          obtain ⟨q, rest, rfl⟩ := List.exists_cons_of_ne_nil hne
          have hq : q.fitted = true := by
            have hboth := hall.2
            rw [List.all_cons, Bool.and_eq_true] at hboth
            exact hboth.1
          have hfirst : q.answer V = .error "ShapeMismatchError" := by
            rw [← hqs q (by simp)]
            simp only [guarded, hq, hV', Bool.not_true, Bool.false_eq_true, if_false]
          simp only [hV', Bool.false_eq_true, if_false, answers, hfirst, bind, Except.bind]
    · simp only [hZ, Bool.false_eq_true, if_false]
  · simp only [hall, Bool.not_false, if_true]

end Trained

namespace Trainer

variable {a t : Trainer} {ts : List Trainer} {X U : Frame} {y y' : Option Series} {e : Failure}
  {r : Trained} {qs : List Trained}

/-- Whatever it is trained on, its answers stand in a relation to what was asked. -/
def Keeps (R : Frame → Frame → Prop) (t : Trainer) : Prop :=
  ∀ X y r, t X y = .ok r → ∀ Z V, r.answer Z = .ok V → R Z V

theorem mem_all (h : all ts X y = .ok qs) : ∀ q ∈ qs, ∃ t ∈ ts, t X y = .ok q := by
  induction ts generalizing qs with
  | nil =>
    obtain rfl := Except.ok.inj h
    simp
  | cons t ts ih =>
    rcases hr : t X y with e | r
    · simp only [all, hr, bind, Except.bind] at h
      cases h
    · rcases hrest : all ts X y with e | rest
      · simp only [all, hr, hrest, bind, Except.bind] at h
        cases h
      · simp only [all, hr, hrest, bind, Except.bind, pure, Except.pure] at h
        obtain rfl := Except.ok.inj h
        intro q hq
        rcases List.mem_cons.1 hq with rfl | hq
        · exact ⟨t, by simp, hr⟩
        · obtain ⟨u, hu, hrun⟩ := ih hrest q hq
          exact ⟨u, by simp [hu], hrun⟩

theorem all_ne_nil (hne : ts ≠ []) (h : all ts X y = .ok qs) : qs ≠ [] := by
  rintro rfl
  obtain ⟨t, ts, rfl⟩ := List.exists_cons_of_ne_nil hne
  rcases hr : t X y with e | r
  · simp only [all, hr, bind, Except.bind] at h
    cases h
  · rcases hrest : all ts X y with e | rest <;>
      simp [all, hr, hrest, bind, Except.bind, pure, Except.pure] at h

theorem all_aligned (hts : ∀ t ∈ ts, Regular t) (hy : alignTarget y X = .ok y') :
    all ts X y' = all ts X y := by
  induction ts with
  | nil => rfl
  | cons t ts ih =>
    have ht := (hts t (by simp)).aligned hy X
    have htail := ih fun u hu => hts u (by simp [hu])
    simp only [all, ht, htail]

theorem all_refused (hts : ∀ t ∈ ts, Regular t) (hne : ts ≠ []) (hy : alignTarget y X = .error e) :
    all ts X y = .error e.kind := by
  obtain ⟨t, ts, rfl⟩ := List.exists_cons_of_ne_nil hne
  have ht := (hts t (by simp)).refused hy
  simp only [all, ht, bind, Except.bind]

/-- Parts side by side are trained alike whether or not the target was aligned for them. -/
theorem parallel_eq (hts : ∀ t ∈ ts, Regular t) (hne : ts ≠ []) (names : List Label) (X : Frame)
    (y : Option Series) :
    parallel names ts X y = (all ts X y).map fun qs =>
      (Trained.parallel names qs).guarded X.labels := by
  cases hy : alignTarget y X with
  | error e =>
    rw [all_refused hts hne hy]
    exact fitting_of_refused hy
  | ok y' =>
    refine (fitting_of_aligned hy).trans ?_
    rw [all_aligned hts hy]
    rcases all ts X y with e | qs <;> rfl

theorem sequential_eq (hts : ∀ t ∈ ts, Regular t) (hne : ts ≠ []) (X : Frame)
    (y : Option Series) :
    sequential ts X y = (chain ts X y).map fun rs => (Trained.sequence rs).guarded X.labels := by
  cases hy : alignTarget y X with
  | error e =>
    rw [chain_refused hts hne hy]
    exact fitting_of_refused hy
  | ok y' =>
    refine (fitting_of_aligned hy).trans ?_
    rw [chain_aligned hts hy]
    rcases chain ts X y with e | qs <;> rfl

theorem regular_parallel (names : List Label) (ts : List Trainer) : Regular (parallel names ts) :=
  regular_fitting _

theorem sequential_pair (ha : Regular a) (ht : Regular t) (X : Frame) (y : Option Series) :
    sequential [a, t] X y = do
      let r ← a X y
      let U ← r.answer X
      return (Trained.sequence [r, ← t U y]).guarded X.labels := by
  have hboth : ∀ u ∈ [a, t], Regular u := by
    intro u hu
    rcases List.mem_pair.1 hu with rfl | rfl
    · exact ha
    · exact ht
  rw [sequential_eq hboth (by simp)]
  simp only [chain]
  rcases a X y with e | r
  · rfl
  · simp only [bind, Except.bind, pure, Except.pure]
    rcases r.answer X with e | U
    · rfl
    · dsimp only
      rcases t U y with e | q <;> rfl

/-- The same first part before each of some others, trained on the same data. -/
theorem all_after (ha : Regular a) (hts : ∀ t ∈ ts, Regular t) (hne : ts ≠ []) (X : Frame)
    (y : Option Series) :
    all (ts.map fun t => sequential [a, t]) X y = do
      let r ← a X y
      let U ← r.answer X
      return Trained.eachAfter r X.labels (← all ts U y) := by
  obtain ⟨u, us, hus⟩ := List.exists_cons_of_ne_nil hne
  have hu : Regular u := hts u (by simp [hus])
  rcases hr : a X y with e | r
  · simp only [hus, List.map_cons, all, sequential_pair ha hu, hr, bind, Except.bind]
  rcases hU : r.answer X with e | U
  · simp only [hus, List.map_cons, all, sequential_pair ha hu, hr, hU, bind, Except.bind]
  -- Every summand begins with what the first part has become.
  clear hne hus hu u us
  simp only [bind, Except.bind, hU, pure, Except.pure]
  induction ts with
  | nil => rfl
  | cons t ts ih =>
    have htail := ih fun u hu => hts u (by simp [hu])
    rw [List.map_cons, all, all, sequential_pair ha (hts t (by simp)), hr, htail]
    simp only [bind, Except.bind, hU, pure, Except.pure]
    rcases t U y with e | q
    · rfl
    · dsimp only
      rcases all ts U y with e | qs <;> rfl

/-- The distributive law. -/
theorem sequential_parallel (ha : Regular a) (hts : ∀ t ∈ ts, Regular t) (hne : ts ≠ [])
    (hindex : a.Keeps fun Z V => V.index = Z.index)
    (hrows : ∀ t ∈ ts, t.Keeps fun Z V => V.rows = Z.rows) (names names' : List Label) :
    sequential [a, parallel names ts] = parallel names' (ts.map fun t => sequential [a, t]) := by
  have hsums : ∀ s ∈ ts.map fun t => sequential [a, t], Regular s := by
    intro s hs
    obtain ⟨t, -, rfl⟩ := List.mem_map.1 hs
    exact regular_sequential _
  funext X y
  rw [sequential_pair ha (regular_parallel names ts), parallel_eq hsums (by simpa using hne),
    all_after ha hts hne]
  rcases hr : a X y with e | r
  · rfl
  simp only [bind, Except.bind, pure, Except.pure]
  rcases r.answer X with e | U
  · rfl
  dsimp only
  rw [parallel_eq hts hne]
  rcases hqs : all ts U y with e | qs
  · rfl
  have hown : ∀ q ∈ qs, q.guarded U.labels = q := by
    intro q hq
    obtain ⟨t, ht, hrun⟩ := mem_all hqs q hq
    exact (hts t ht).gated hrun
  have hkept : ∀ q ∈ qs, ∀ V W, q.answer V = .ok W → W.rows = V.rows := by
    intro q hq
    obtain ⟨t, ht, hrun⟩ := mem_all hqs q hq
    exact hrows t ht U y q hrun
  exact congrArg Except.ok (Trained.parallel_eachAfter (all_ne_nil hne hqs) hown (hindex X y r hr)
    hkept names names')

end Trainer

namespace Node

/-- After every fit that succeeds, every answer stands in a relation to what was asked. -/
def Keeps (R : Frame → Frame → Prop) (env : Surroundings) (w : Workspace) (n : Node) : Prop :=
  ∀ X y v, n.plan.fit env n.site X y w = (.ok (), v) →
    ∀ Z V, (n.plan.transform v.memory n.site Z).outcome = .ok V → R Z V

def KeepsRows : Surroundings → Workspace → Node → Prop := Keeps fun Z V => V.rows = Z.rows

def KeepsIndex : Surroundings → Workspace → Node → Prop := Keeps fun Z V => V.index = Z.index

/-- One summand for every part: the part after a copy of its own of another node. -/
def summands (a : Node) (name : Label) : List Node → Work (List Node)
  | [] => return []
  | b :: bs => do
    let own ← Work.placing a.copy
    let s ← sequential [.node own, .node b] name
    return s :: (← summands a name bs)

variable {env : Surroundings} {w w' u v x : Workspace} {a b c s : Node} {bs ss : List Node}
  {m m' : Memory} {name : Label} {R : Frame → Frame → Prop}

theorem keeps_train (h : Keeps R env w a) : (train env w a).Keeps R := by
  intro X y r hr Z V hV
  unfold train at hr
  rcases hfit : a.plan.fit env a.site X y w with ⟨e | _, v⟩
  · rw [hfit] at hr
    cases hr
  · rw [hfit] at hr
    obtain rfl := Except.ok.inj hr
    have hanswer : Failure.byKind (a.plan.transform v.memory a.site Z).outcome = .ok V := hV
    rcases houtcome : (a.plan.transform v.memory a.site Z).outcome with e | W
    · rw [houtcome] at hanswer
      cases hanswer
    · rw [houtcome] at hanswer
      obtain rfl := Except.ok.inj hanswer
      exact h X y v hfit Z _ houtcome

/-- Trees of one plan that are ready to be fitted side by side are one trainer. -/
theorem train_ready {p : Plan} {s s' : Site} (h : Plan.Ready w.memory w'.memory p s s') :
    train env w ⟨p, s⟩ = train env w' ⟨p, s'⟩ := by
  funext X y
  have hrun := Plan.refits env p s s' X y w w' h
  unfold train
  rcases hw : p.fit env s X y w with ⟨e | _, v⟩ <;>
    rcases hw' : p.fit env s' X y w' with ⟨e' | _, v'⟩ <;> rw [hw, hw'] at hrun
  · exact congrArg (fun e => Except.error (Failure.kind e)) hrun.1
  · exact hrun.elim
  · exact hrun.elim
  · have hagree : p.Agree v.memory v'.memory s s' := hrun.2
    have hfitted : Node.isFitted ⟨p, s⟩ v.memory = Node.isFitted ⟨p, s'⟩ v'.memory :=
      hagree.isFitted_eq
    refine congrArg Except.ok ?_
    unfold trained
    simp only [hfitted, hagree.transform_eq]

theorem train_copy (h : a.Whole w.memory) (hc : a.copy w.memory = (c, w'.memory)) :
    train env w' c = train env w a := by
  obtain ⟨hplan, hcopies⟩ := h.copy hc
  obtain ⟨p, s⟩ := a
  obtain ⟨p, s'⟩ := c
  obtain rfl : p = _ := hplan
  have hlays := hcopies.lays
  rw [train_same (hlays.extend.mirrors h.holds.taken (by simp))]
  exact (train_ready ⟨hcopies.alike, h.holds.extend hlays.extend, hlays.holds⟩).symm

/-- What comes of building summands: trees of their own, in a memory that is otherwise as before,
each of which is trained like a sequence. -/
structure Summed (env : Surroundings) (w : Workspace) (a : Node) (bs ss : List Node)
    (v : Workspace) : Prop where
  extend : Memory.Extends [] w.memory v.memory
  holds : v.memory.Holds (Site.idsOf (sites ss))
  trains : ss.map (train env v) =
    (bs.map (train env w)).map fun t => .sequential [train env w a, t]

theorem Summed.length_eq (h : Summed env w a bs ss v) : ss.length = bs.length := by
  have hlen := congrArg List.length h.trains
  simpa using hlen

/-- One more summand, in front of others that were built after it. -/
theorem Summed.cons (htrain : train env u s = .sequential [train env w a, train env w b])
    (hext : Memory.Extends [] w.memory u.memory) (hs : u.memory.Holds s.site.ids)
    (ha : ∀ i ∈ a.site.ids, i < w.memory.next)
    (hbs : ∀ i ∈ Site.idsOf (sites bs), i < w.memory.next)
    (hrest : Summed env u a bs ss v) (hapart : ∀ i ∈ s.site.ids, i ∉ Site.idsOf (sites ss)) :
    Summed env w a (b :: bs) (s :: ss) v where
  extend := hext.trans hrest.extend (by simp)
  holds := by
    have hfirst := hs.extend hrest.extend
    refine ⟨List.nodup_append.2 ⟨hfirst.distinct, hrest.holds.distinct, ?_⟩, fun i hi => ?_⟩
    · rintro i hi j hj rfl
      exact hapart i hi hj
    · exact (List.mem_append.1 hi).elim (hfirst.taken i) (hrest.holds.taken i)
  trains := by
    have hfirst : train env v s = train env u s :=
      (train_same (hrest.extend.mirrors hs.taken (by simp))).symm
    have hother : train env u a = train env w a := (train_same (hext.mirrors ha (by simp))).symm
    rw [List.map_cons, hfirst, htrain, hrest.trains, hother, map_train_extend hext hbs (by simp)]
    rfl

/-- One summand, on the identities of its two parts and one of its own. -/
theorem summand_built (name : Label) (hc : train env x c = train env w a)
    (hext : Memory.Extends [] w.memory x.memory) (hb : ∀ i ∈ b.site.ids, i < w.memory.next)
    (hids : x.memory.Holds (c.site.ids ++ b.site.ids)) :
    ∃ s u, sequential [.node c, .node b] name x = (.ok s, u) ∧
      Memory.Extends [] w.memory u.memory ∧ u.memory.Holds s.site.ids ∧
      s.site.ids = x.memory.next :: (c.site.ids ++ b.site.ids) ∧
      train env u s = .sequential [train env w a, train env w b] := by
  have hparts : Site.idsOf (sites [c, b]) = c.site.ids ++ b.site.ids := by
    simp [sites, Site.idsOf]
  have hlen : 2 ≤ [c, b].length := Nat.le_refl 2
  obtain ⟨s, u, hs, hcomposed⟩ := sequential_composed env name hlen (hparts ▸ hids)
  have hother : train env x b = train env w b := (train_same (hext.mirrors hb (by simp))).symm
  refine ⟨s, u, hs, hext.trans hcomposed.extend (by simp), hcomposed.holds, ?_, ?_⟩
  · rw [hcomposed.ids, hparts]
  · rw [hcomposed.train, List.map_cons, List.map_cons, List.map_nil, hc, hother]

/-- The summands are on identities that are new or those of their parts. -/
theorem summands_summed (env : Surroundings) (name : Label) (ha : a.Whole w.memory)
    (hbs : w.memory.Holds (Site.idsOf (sites bs))) :
    ∃ ss v, summands a name bs w = (.ok ss, v) ∧ Summed env w a bs ss v ∧
      ∀ i ∈ Site.idsOf (sites ss), i ∈ Site.idsOf (sites bs) ∨ w.memory.next ≤ i := by
  induction bs generalizing w with
  | nil =>
    refine ⟨[], w, rfl, ⟨.refl [] _, hbs, rfl⟩, fun i hi => ?_⟩
    simp [sites, Site.idsOf] at hi
  | cons b bs ih =>
    change w.memory.Holds (b.site.ids ++ Site.idsOf (sites bs)) at hbs
    rcases hc : a.copy w.memory with ⟨c, m⟩
    obtain ⟨-, hcopies⟩ := ha.copy hc
    have hlays := hcopies.lays
    let x : Workspace := { w with memory := m }
    have hpair : x.memory.Holds (c.site.ids ++ b.site.ids) :=
      (hlays.holds_append hbs.left).perm List.perm_append_comm
    obtain ⟨s, u, hs, hext, hholds, hids, htrain⟩ :=
      summand_built name (train_copy ha hc) hlays.extend hbs.left.taken hpair
    obtain ⟨ss, v, hss, hsummed, hnew⟩ := ih (ha.extend hext) (hbs.right.extend hext)
    have hown : ∀ i ∈ s.site.ids, i ∈ b.site.ids ∨ w.memory.next ≤ i := by
      intro i hi
      rw [hids] at hi
      rcases List.mem_cons.1 hi with rfl | hi
      · exact .inr hlays.extend.next_le
      · rcases List.mem_append.1 hi with hi | hi
        · exact .inr (hlays.new i hi)
        · exact .inl hi
    have hapart : ∀ i ∈ s.site.ids, i ∉ Site.idsOf (sites ss) := by
      intro i hi hmem
      have hused := hholds.taken i hi
      rcases hnew i hmem with hmem | hmem
      · have hold := hbs.right.taken i hmem
        rcases hown i hi with hi | hi
        · exact hbs.disjoint hi hmem
        · omega
      · omega
    refine ⟨s :: ss, v, ?_, .cons htrain hext hholds ha.holds.taken hbs.right.taken hsummed hapart,
      fun i hi => ?_⟩
    · unfold summands
      rw [Work.run_placing_bind, hc, Work.run_bind, hs]
      dsimp only
      rw [Work.run_bind, hss]
      rfl
    · rcases List.mem_append.1 hi with hi | hi
      · exact (hown i hi).imp (List.mem_append_left _) id
      · exact (hnew i hi).imp (List.mem_append_right _) (Nat.le_trans hext.next_le)

/-- The same, with the other node itself in the first summand. -/
theorem first_summed (env : Surroundings) (name : Label) (ha : a.Whole w.memory)
    (hids : w.memory.Holds (Site.idsOf (sites (a :: b :: bs)))) :
    ∃ ss v, (do
      let s ← sequential [.node a, .node b] name
      return s :: (← summands a name bs)) w = (.ok ss, v) ∧ Summed env w a (b :: bs) ss v := by
  change w.memory.Holds (a.site.ids ++ (b.site.ids ++ Site.idsOf (sites bs))) at hids
  have hpair : w.memory.Holds (a.site.ids ++ b.site.ids) := by
    rw [← List.append_assoc] at hids
    exact hids.left
  have hbs := hids.right.right
  obtain ⟨s, u, hs, hext, hholds, hown, htrain⟩ :=
    summand_built name rfl (.refl [] w.memory) hids.right.left.taken hpair
  obtain ⟨ss, v, hss, hsummed, hnew⟩ := summands_summed env name (ha.extend hext) (hbs.extend hext)
  have hapart : ∀ i ∈ s.site.ids, i ∉ Site.idsOf (sites ss) := by
    intro i hi hmem
    have hused := hholds.taken i hi
    rw [hown] at hi
    rcases hnew i hmem with hmem | hmem
    · have hold := hbs.taken i hmem
      rcases List.mem_cons.1 hi with rfl | hi
      · omega
      · rw [← List.append_assoc] at hids
        exact hids.disjoint hi hmem
    · omega
  refine ⟨s :: ss, v, ?_, .cons htrain hext hholds ha.holds.taken hbs.taken hsummed hapart⟩
  rw [Work.run_bind, hs]
  dsimp only
  rw [Work.run_bind, hss]
  rfl

theorem equivalent_of_summed {build : Work (List Node)}
    (hids : w.memory.Holds (Site.idsOf (sites (a :: bs)))) (hlen : 2 ≤ bs.length)
    (hindex : KeepsIndex env w a) (hrows : ∀ b ∈ bs, KeepsRows env w b)
    (hbuild : build w = (.ok ss, v)) (hsummed : Summed env w a bs ss v)
    (inner outer plus : Label) :
    Equivalent env w
      (do
        let p ← parallel (bs.map Part.node) inner
        sequential [.node a, .node p] outer)
      (do
        let ss ← build
        parallel (ss.map Part.node) plus) := by
  have hboth : w.memory.Holds (a.site.ids ++ Site.idsOf (sites bs)) := hids
  obtain ⟨p, u, names, hp, hinner⟩ := parallel_composed env inner hlen hboth.right
  have hall : w.memory.Holds (Site.idsOf (sites ([a] ++ (bs ++ [])))) := by simpa using hids
  have hamong : u.memory.Holds (Site.idsOf (sites ([a] ++ p :: []))) := hinner.holds_among hall
  have htwo : 2 ≤ [a, p].length := Nat.le_refl 2
  obtain ⟨n, u', hn, hleft⟩ := sequential_composed env outer htwo hamong
  have hss : 2 ≤ ss.length := by rwa [hsummed.length_eq]
  obtain ⟨n', v', names', hn', hright⟩ := parallel_composed env plus hss hsummed.holds
  have hbuilt : (do
      let p ← parallel (bs.map Part.node) inner
      sequential [.node a, .node p] outer) w = (.ok n, u') := by
    rw [Work.run_bind, hp]
    exact hn
  have hbuilt' : (do
      let ss ← build
      parallel (ss.map Part.node) plus) w = (.ok n', v') := by
    rw [Work.run_bind, hbuild]
    exact hn'
  refine equivalent_of_train hbuilt hbuilt' ?_
  have hfirst : train env u a = train env w a :=
    (train_same (hinner.extend.mirrors hboth.left.taken (by simp))).symm
  rw [hleft.train, hright.train, hsummed.trains, List.map_cons, List.map_cons, List.map_nil,
    hinner.train, hfirst]
  have hne : bs.map (train env w) ≠ [] := by
    intro hnil
    rw [List.map_eq_nil_iff.1 hnil] at hlen
    simp at hlen
  refine Trainer.sequential_parallel (regular_train hboth.left.taken)
    (regular_trainers hboth.right) hne (keeps_train hindex) (fun t ht => ?_) names names'
  obtain ⟨b, hb, rfl⟩ := List.mem_map.1 ht
  exact keeps_train (hrows b hb)

/-- A sequence distributes over a parallel from the left. The node in front keeps the row labels,
the parts keep the number of rows, and copies of the node in front have the names that it has, as
they do when inner nodes of it have names and the members of its baggings are named like their
templates. Then every summand may have a copy of its own of the node in front, and the first may as
well have the node itself. -/
theorem sequential_distributes (env : Surroundings) (w : Workspace) (a b : Node) (bs : List Node)
    (inner outer name plus : Label) (ha : a.Whole w.memory)
    (hids : w.memory.Holds (Site.idsOf (sites (a :: b :: bs)))) (hbs : bs ≠ [])
    (hindex : KeepsIndex env w a) (hrows : ∀ c ∈ b :: bs, KeepsRows env w c) :
    let product : Work Node := do
      let p ← parallel ((b :: bs).map Part.node) inner
      sequential [.node a, .node p] outer
    Equivalent env w product
        (do
          let ss ← summands a name (b :: bs)
          parallel (ss.map Part.node) plus) ∧
      Equivalent env w product
        (do
          let s ← sequential [.node a, .node b] name
          let ss ← summands a name bs
          parallel ((s :: ss).map Part.node) plus) := by
  intro product
  have hlen : 2 ≤ (b :: bs).length := by
    have hpos := List.length_pos_iff.2 hbs
    rw [List.length_cons]
    omega
  have hboth : w.memory.Holds (a.site.ids ++ Site.idsOf (sites (b :: bs))) := hids
  obtain ⟨ss, v, hss, hsummed, -⟩ := summands_summed env name ha hboth.right
  obtain ⟨ss', v', hss', hsummed'⟩ := first_summed env name ha hids
  refine ⟨equivalent_of_summed hids hlen hindex hrows hss hsummed inner outer plus, ?_⟩
  have h := equivalent_of_summed hids hlen hindex hrows hss' hsummed' inner outer plus
  simpa only [bind_assoc, pure_bind] using h

/-! Nodes that keep rows. -/

theorem keeps_of_answers
    (h : ∀ m Z V, (a.plan.transform m a.site Z).outcome = .ok V → R Z V) : Keeps R env w a :=
  fun _ _ v _ Z V hV => h v.memory Z V hV

theorem keeps_identity {s : Site} (hR : ∀ Z, R Z Z) : Keeps R env w ⟨.element .identity, s⟩ := by
  refine keeps_of_answers fun m Z V hV => ?_
  rw [Plan.transform] at hV
  obtain rfl : Z = V := Except.ok.inj (guarded_of_ok hV).2.2
  exact hR Z

/-- Votes are over the rows they were asked for. -/
theorem keepsIndex_vote {ps : List Plan} {s : Site} : KeepsIndex env w ⟨.vote ps, s⟩ := by
  refine keeps_of_answers fun m Z V hV => ?_
  rw [Plan.transform] at hV
  obtain ⟨members, -, hmembers⟩ := Logged.exists_of_bind (guarded_of_ok hV).2.2
  obtain ⟨winners, -, hwinners⟩ := Logged.exists_of_bind hmembers
  rw [← Except.ok.inj hwinners]
  rfl

/-- Two parts after a passthrough-like node, and after two copies of it. -/
theorem sequential_distributes_two :
    let keep : Nat → Node := fun i => ⟨.element .identity, .mk i []⟩
    let w : Workspace :=
      ⟨⟨#[.fresh (.text "a"), .fresh (.text "b"), .fresh (.text "c")]⟩, [], false⟩
    let env : Surroundings := ⟨.error (.unusable .value), .builtin⟩
    let product : Work Node := do
      let p ← parallel ([keep 1, keep 2].map Part.node) .null
      sequential [.node (keep 0), .node p] .null
    Equivalent env w product
        (do
          let ss ← summands (keep 0) .null [keep 1, keep 2]
          parallel (ss.map Part.node) .null) ∧
      Equivalent env w product
        (do
          let s ← sequential [.node (keep 0), .node (keep 1)] .null
          let ss ← summands (keep 0) .null [keep 2]
          parallel ((s :: ss).map Part.node) .null) := by
  intro keep w env
  have hwhole : (keep 0).Whole w.memory := ⟨rfl, by decide, by decide⟩
  have hrows : ∀ n ∈ [keep 1, keep 2], KeepsRows env w n := by
    intro n hn
    rcases List.mem_pair.1 hn with rfl | rfl <;> exact keeps_identity fun _ => rfl
  exact sequential_distributes env w (keep 0) (keep 1) [keep 2] .null .null .null .null hwhole
    ⟨by decide, by decide⟩ (by simp) (keeps_identity fun _ => rfl) hrows

/-- A vote whose name was taken away shows no name in its answers, but its copies do. -/
theorem sequential_distributes_nameless :
    let one : Learner := ⟨"One", [], .labels, "classification", fun _ _ =>
      return some ⟨fun Z => return ⟨.null, .int64, List.replicate Z.rows (.int 1)⟩, none⟩⟩
    let a : Node := ⟨.vote [.learner one, .learner one], .mk 2 [.mk 0 [], .mk 1 []]⟩
    let keep : Nat → Node := fun i => ⟨.element .identity, .mk i []⟩
    let w : Workspace :=
      ⟨⟨#[.fresh (.text "l"), .fresh (.text "m"), .fresh (.text ""), .fresh (.text "b"),
        .fresh (.text "c")]⟩, [], false⟩
    let env : Surroundings := ⟨.error (.unusable .value), .builtin⟩
    w.memory.Holds (Site.idsOf (sites [a, keep 3, keep 4])) ∧ KeepsIndex env w a ∧
      (∀ n ∈ [a, keep 3, keep 4], KeepsRows env w n) ∧
      ¬Equivalent env w
        (do
          let p ← parallel ([keep 3, keep 4].map Part.node) .null
          sequential [.node a, .node p] .null)
        (do
          let ss ← summands a .null [keep 3, keep 4]
          parallel (ss.map Part.node) .null) := by
  intro one a keep w env
  refine ⟨⟨by decide, by decide⟩, keepsIndex_vote, fun n hn => ?_, fun h => ?_⟩
  · rcases List.mem_cons.1 hn with rfl | hn
    · exact fun X y v hfit Z V hV => congrArg List.length (keepsIndex_vote X y v hfit Z V hV)
    · rcases List.mem_pair.1 hn with rfl | rfl <;> exact keeps_identity fun _ => rfl
  · let X : Data := .frame ⟨[.int 0], []⟩
    let y : Data := .series ⟨⟨.null, .int64, [.int 1]⟩, [.int 0]⟩
    have hlabels := congrArg (fun o => o.toOption.map fun V => V.labels.map (·.plain))
      (h.fitTransform_eq X y X)
    exact absurd hlabels (by decide +kernel)

end Node
end ColumnFlow
