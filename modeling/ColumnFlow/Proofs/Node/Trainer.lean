import ColumnFlow.Proofs.Frame.Alignment
import ColumnFlow.Proofs.Frame.Concatenation

/-!
# Trainers

A node as seen from outside, without identity and state. A trainer takes features and a target, and
fails or gives something that answers frames, if it is fitted. Failures count by their kinds.
Composites are combinators of trainers.
-/
namespace ColumnFlow

namespace Logged

variable {α β : Type}

theorem outcome_bind (x : Logged α) (f : α → Logged β) :
    (x >>= f).outcome = x.outcome >>= fun a => (f a).outcome := by
  rcases x with ⟨notices, _ | a⟩ <;> rfl

theorem exists_of_bind {x : Logged α} {f : α → Logged β} {b : β}
    (h : (x >>= f).outcome = .ok b) : ∃ a, x.outcome = .ok a ∧ (f a).outcome = .ok b := by
  rw [outcome_bind] at h
  rcases hx : x.outcome with e | a
  · rw [hx] at h
    cases h
  · rw [hx] at h
    exact ⟨a, rfl, h⟩

end Logged

namespace Failure

/-- An outcome whose failure is known by its kind. -/
def byKind {α : Type} (x : Except Failure α) : Except String α := x.mapError kind

theorem byKind_bind {α β : Type} (x : Logged α) (f : α → Logged β) :
    byKind (x >>= f).outcome = byKind x.outcome >>= fun a => byKind (f a).outcome := by
  rcases x with ⟨notices, _ | a⟩ <;> rfl

end Failure

/-- What a fit achieved: whether all is fitted, and the answers to frames. -/
structure Trained where
  fitted : Bool
  answer : Frame → Except String Frame

namespace Trained

/-- Answers only if it is fitted, and only frames with some columns. -/
def guarded (columns : List Label) (r : Trained) : Trained where
  fitted := r.fitted
  answer Z :=
    if !r.fitted then .error "NotFittedError"
    else if columns.all Z.has then r.answer Z
    else .error "ShapeMismatchError"

/-- Each answers what the one before it answered. -/
def chained : List Trained → Frame → Except String Frame
  | [], Z => .ok Z
  | r :: rs, Z => do chained rs (← r.answer Z)

def sequence (rs : List Trained) : Trained := ⟨rs.all (·.fitted), chained rs⟩

/-- The answers of all to one frame. -/
def answers : List Trained → Frame → Except String (List Frame)
  | [], _ => .ok []
  | r :: rs, Z => do
    let U ← r.answer Z
    return U :: (← answers rs Z)

/-- Outputs side by side, if all have the rows of the input. -/
def joined (names : List Label) (outputs : List Frame) (Z : Frame) : Except String Frame :=
  if (countTable (names.zip (outputs.map Frame.rows))).any fun c => c.2 != Z.rows then
    .error "ShapeMismatchError"
  else if outputs.any fun f => f.rows != Z.rows then .error "ValueError"
  else .ok (Frame.sideBySide outputs Z)

def parallel (names : List Label) (rs : List Trained) : Trained :=
  ⟨rs.all (·.fitted), fun Z => do joined names (← answers rs Z) Z⟩

variable {r : Trained} {rs rs' : List Trained} {columns : List Label} {X Z : Frame}

theorem guarded_guarded (columns : List Label) (r : Trained) :
    (r.guarded columns).guarded columns = r.guarded columns := by
  unfold guarded
  congr 1
  funext Z
  by_cases hfitted : r.fitted = true
  · by_cases hcolumns : columns.all Z.has = true
    · simp only [hfitted, hcolumns, Bool.not_true, Bool.false_eq_true, if_false, if_true]
    · simp only [hfitted, hcolumns, Bool.not_true, Bool.false_eq_true, if_false]
  · simp only [hfitted, Bool.not_false, if_true]

theorem answer_of_not_fitted (h : r.guarded columns = r) (hr : r.fitted = false) (Z : Frame) :
    r.answer Z = .error "NotFittedError" := by
  rw [← h]
  simp only [guarded, hr, Bool.not_false, if_true]

theorem fitted_of_answer (h : r.guarded columns = r) (hr : r.answer X = .ok Z) :
    r.fitted = true := by
  cases hfitted : r.fitted with
  | true => rfl
  | false =>
    rw [answer_of_not_fitted h hfitted] at hr
    cases hr

/-- The frame with which something was fitted has the columns that are asked for. -/
theorem guarded_answer_own (X : Frame) (r : Trained) :
    (r.guarded X.labels).answer X =
      if r.fitted then r.answer X else .error "NotFittedError" := by
  unfold guarded
  cases r.fitted <;> simp [Frame.all_has_labels]

theorem chained_append (rs rs' : List Trained) (Z : Frame) :
    chained (rs ++ rs') Z = chained rs Z >>= chained rs' := by
  induction rs generalizing Z with
  | nil => rfl
  | cons r rs ih =>
    simp only [List.cons_append, chained]
    rcases r.answer Z with e | U
    · rfl
    · exact ih U

/-- Two chains that are fitted alike, and answer alike when they are. -/
def Interchangeable (rs rs' : List Trained) : Prop :=
  rs.all (·.fitted) = rs'.all (·.fitted) ∧
    (rs.all (·.fitted) = true → ∀ Z, chained rs Z = chained rs' Z)

theorem Interchangeable.guarded_eq {before : List Trained} (h : Interchangeable rs rs')
    (columns : List Label) :
    (sequence (before ++ rs)).guarded columns = (sequence (before ++ rs')).guarded columns := by
  obtain ⟨hfitted, hanswer⟩ := h
  have hall : (before ++ rs).all (·.fitted) = (before ++ rs').all (·.fitted) := by
    rw [List.all_append, List.all_append, hfitted]
  simp only [guarded, sequence, ← hall]
  congr 1
  funext Z
  by_cases hbefore : (before ++ rs).all (·.fitted) = true
  · have hlast : chained rs = chained rs' := by
      rw [List.all_append, Bool.and_eq_true] at hbefore
      exact funext (hanswer hbefore.2)
    rw [chained_append, chained_append, hlast]
    rfl
  · simp only [hbefore, Bool.not_false, if_true]

theorem sequence_cons_answer (hr : r.fitted = true) (hZ : r.answer X = .ok Z) :
    ((sequence (r :: rs)).guarded X.labels).answer X =
      ((sequence rs).guarded Z.labels).answer Z := by
  rw [guarded_answer_own, guarded_answer_own]
  simp only [sequence, List.all_cons, hr, Bool.true_and, chained, hZ]
  rfl

end Trained

/-- How a node is fitted. -/
abbrev Trainer := Frame → Option Series → Except String Trained

namespace Trainer

/-- Aligns the target first, and asks for the columns of the features afterwards. -/
def fitting (body : Trainer) : Trainer := fun X y => do
  let y ← Failure.byKind (alignTarget y X)
  return (← body X y).guarded X.labels

/-- A trainer that aligns its target and keeps its columns by itself. -/
def Regular (t : Trainer) : Prop := fitting t = t

/-- Each is trained on what the one before it answers; nothing is asked of the last. -/
def chain : List Trainer → Frame → Option Series → Except String (List Trained)
  | [], _, _ => .ok []
  | [t], X, y => do return [← t X y]
  | t :: u :: ts, X, y => do
    let r ← t X y
    let Z ← r.answer X
    return r :: (← chain (u :: ts) Z y)

/-- The same, and what the last answers. -/
def through : List Trainer → Frame → Option Series → Except String (List Trained × Frame)
  | [], X, _ => .ok ([], X)
  | t :: ts, X, y => do
    let r ← t X y
    let Z ← r.answer X
    let (rs, Z) ← through ts Z y
    return (r :: rs, Z)

def sequential (ts : List Trainer) : Trainer := fitting fun X y => do
  return .sequence (← chain ts X y)

/-- All are trained on the same. -/
def all : List Trainer → Frame → Option Series → Except String (List Trained)
  | [], _, _ => .ok []
  | t :: ts, X, y => do
    let r ← t X y
    return r :: (← all ts X y)

def parallel (names : List Label) (ts : List Trainer) : Trainer := fitting fun X y => do
  return .parallel names (← all ts X y)

variable {t : Trainer} {ts us : List Trainer} {X Z : Frame} {y y' : Option Series} {r : Trained}
  {rs : List Trained} {e : Failure}

theorem fitting_of_aligned {body : Trainer} (hy : alignTarget y X = .ok y') :
    fitting body X y = (body X y').map (Trained.guarded X.labels) := by
  unfold fitting Failure.byKind
  rw [hy]
  rfl

theorem fitting_of_refused {body : Trainer} (hy : alignTarget y X = .error e) :
    fitting body X y = .error e.kind := by
  unfold fitting Failure.byKind
  rw [hy]
  rfl

theorem regular_fitting (body : Trainer) : Regular (fitting body) := by
  funext X y
  cases hy : alignTarget y X with
  | error e => rw [fitting_of_refused hy, fitting_of_refused hy]
  | ok y' =>
    have hagain : alignTarget y' X = .ok y' := by rw [alignTarget_alignTarget hy, hy]
    rw [fitting_of_aligned hy, fitting_of_aligned hagain, fitting_of_aligned hy]
    rcases body X y' with e | r
    · rfl
    · exact congrArg Except.ok (Trained.guarded_guarded _ _)

theorem regular_sequential (ts : List Trainer) : Regular (sequential ts) := regular_fitting _

namespace Regular

/-- It does not matter whether a target was aligned before, with these features or with others. -/
theorem aligned (h : Regular t) (hy : alignTarget y X = .ok y') (Z : Frame) : t Z y' = t Z y := by
  rw [← h]
  unfold fitting
  rw [alignTarget_alignTarget hy]

theorem refused (h : Regular t) (hy : alignTarget y X = .error e) : t X y = .error e.kind := by
  rw [← h]
  exact fitting_of_refused hy

theorem gated (h : Regular t) (ht : t X y = .ok r) : r.guarded X.labels = r := by
  rw [← h] at ht
  cases hy : alignTarget y X with
  | error e =>
    rw [fitting_of_refused hy] at ht
    cases ht
  | ok y' =>
    rw [fitting_of_aligned hy] at ht
    rcases hbody : t X y' with e | q
    · rw [hbody] at ht
      cases ht
    · rw [hbody] at ht
      obtain rfl := Except.ok.inj ht
      exact Trained.guarded_guarded _ _

end Regular

section Chain

theorem chain_aligned (hts : ∀ t ∈ ts, Regular t) (hy : alignTarget y X = .ok y') (Z : Frame) :
    chain ts Z y' = chain ts Z y := by
  induction ts generalizing Z with
  | nil => rfl
  | cons t ts ih =>
    have ht := (hts t (by simp)).aligned hy Z
    cases ts with
    | nil => simp only [chain, ht]
    | cons u ts =>
      have htail := ih fun q hq => hts q (by simp [hq])
      simp only [chain, ht, htail]

theorem chain_refused (hts : ∀ t ∈ ts, Regular t) (hne : ts ≠ [])
    (hy : alignTarget y X = .error e) : chain ts X y = .error e.kind := by
  cases ts with
  | nil => exact absurd rfl hne
  | cons t ts =>
    have ht := (hts t (by simp)).refused hy
    cases ts <;> simp only [chain, ht] <;> rfl

theorem chain_append (hus : us ≠ []) :
    chain (ts ++ us) X y = do
      let (rs, Z) ← through ts X y
      return rs ++ (← chain us Z y) := by
  induction ts generalizing X with
  | nil =>
    simp only [List.nil_append, through, bind, Except.bind, pure, Except.pure]
    rcases chain us X y with e | rs <;> rfl
  | cons t ts ih =>
    obtain ⟨u, rest, hrest⟩ :=
      List.exists_cons_of_ne_nil (List.append_ne_nil_of_right_ne_nil ts hus)
    simp only [List.cons_append, hrest, chain, through]
    rw [← hrest]
    rcases t X y with e | r
    · rfl
    · dsimp only [bind, Except.bind]
      rcases r.answer X with e | Z
      · rfl
      · dsimp only
        rw [ih]
        dsimp only [bind, Except.bind]
        rcases through ts Z y with e | ⟨rs, U⟩
        · rfl
        · dsimp only [bind, Except.bind, pure, Except.pure]
          rcases chain us U y with e | us' <;> rfl

/-- A chain that is asked for the frame it was trained on. -/
theorem chain_answer (hts : ∀ t ∈ ts, Regular t) :
    (do
      let rs ← chain ts X y
      let Z ← ((Trained.sequence rs).guarded X.labels).answer X
      return (rs, Z)) = through ts X y := by
  induction ts generalizing X with
  | nil =>
    simp only [chain, through, bind, Except.bind, Trained.guarded_answer_own]
    rfl
  | cons t ts ih =>
    rcases ht : t X y with e | r
    · cases ts <;> simp only [chain, through, ht, bind, Except.bind]
    · have hgated := (hts t (by simp)).gated ht
      cases ts with
      | nil =>
        simp only [chain, through, ht, bind, Except.bind, pure, Except.pure,
          Trained.guarded_answer_own, Trained.sequence, List.all_cons, List.all_nil, Bool.and_true,
          Trained.chained]
        cases hr : r.fitted with
        | false => simp [Trained.answer_of_not_fitted hgated hr]
        | true => rcases r.answer X with e | Z <;> rfl
      | cons u ts =>
        rcases hZ : r.answer X with e | Z
        · simp only [chain, through, ht, hZ, bind, Except.bind]
        · have hr := Trained.fitted_of_answer hgated hZ
          have htail := ih (X := Z) fun q hq => hts q (by simp [hq])
          simp only [bind, Except.bind, pure, Except.pure] at htail
          rw [through]
          simp only [chain, ht, hZ, bind, Except.bind, pure, Except.pure, ← htail]
          rcases chain (u :: ts) Z y with e | rs
          · rfl
          · dsimp only
            rw [Trained.sequence_cons_answer hr hZ]
            rcases ((Trained.sequence rs).guarded Z.labels).answer Z with e | U <;> rfl

theorem chain_head (hts : ∀ t ∈ ts, Regular t) (hne : ts ≠ []) (h : chain ts X y = .ok rs) :
    ∃ r rest, rs = r :: rest ∧ r.guarded X.labels = r := by
  cases ts with
  | nil => exact absurd rfl hne
  | cons t ts =>
    rcases ht : t X y with e | r
    · cases ts <;> simp only [chain, ht, bind, Except.bind] at h <;> cases h
    · refine ⟨r, ?_⟩
      have hgated := (hts t (by simp)).gated ht
      cases ts with
      | nil =>
        simp only [chain, ht, bind, Except.bind, pure, Except.pure] at h
        exact ⟨[], (Except.ok.inj h).symm, hgated⟩
      | cons u ts =>
        simp only [chain, ht, bind, Except.bind, pure, Except.pure] at h
        split at h
        · cases h
        · split at h
          · cases h
          · exact ⟨_, (Except.ok.inj h).symm, hgated⟩

end Chain

end Trainer
end ColumnFlow
