import ColumnFlow.Node.Fit
import ColumnFlow.Proofs.Metric.Preference

/-!
# The first best score

The search goes through the scores once and keeps one until it meets a better one. What it keeps is
unbeaten by all finite scores so far, and beats all of those before it, so that in the end it is the
first of the unbeaten scores. Scores that are not finite are passed over, wherever they stand.
-/
namespace ColumnFlow

/-- The score in the place is finite, and no finite score is better. -/
def Metric.Unbeaten (metric : Metric) (scores : List Float) (i : Nat) : Prop :=
  ∃ x, scores[i]? = some x ∧ x.isFinite = true ∧
    ∀ y ∈ scores, y.isFinite = true → metric.isBetter y x = false

/-- One step of the search. -/
def keepBetter (metric : Metric) (best : Option (Float × Nat)) (p : Float × Nat) :
    Option (Float × Nat) :=
  if p.1.isFinite then
    match best with
    | none => some p
    | some b => if metric.isBetter p.1 b.1 then some p else best
  else best

theorem bestIndex_eq_foldl (metric : Metric) (scores : List Float) :
    bestIndex metric scores = (scores.zipIdx.foldl (keepBetter metric) none).map (·.2) := by
  unfold bestIndex
  congr 2
  funext best p
  unfold keepBetter
  rw [isFinite_eq]
  cases p.1.isNaN || p.1.isInf <;> rfl

/-- A score that no other finite score beats and that beats all finite scores before it. -/
structure Metric.Leads (metric : Metric) (scores : List Float) (x : Float) (i : Nat) : Prop where
  score : scores[i]? = some x
  finite : x.isFinite = true
  unbeaten : ∀ y ∈ scores, y.isFinite = true → metric.isBetter y x = false
  first : ∀ j y, j < i → scores[j]? = some y → y.isFinite = true → metric.isBetter x y = true

/-- What the search holds after some scores; nothing, as long as none was finite. -/
def Metric.Held (metric : Metric) (scores : List Float) : Option (Float × Nat) → Prop
  | none => ∀ y ∈ scores, y.isFinite = false
  | some (x, i) => metric.Leads scores x i

namespace Metric

variable {metric : Metric} {scores : List Float} {x y : Float} {i : Nat}

theorem Leads.lt_length (h : metric.Leads scores x i) : i < scores.length :=
  (List.getElem?_eq_some_iff.1 h.score).1

theorem Leads.mem (h : metric.Leads scores x i) : x ∈ scores := List.mem_of_getElem? h.score

/-- A score goes on leading until a better one comes. -/
theorem Leads.append (h : metric.Leads scores x i)
    (hy : y.isFinite = true → metric.isBetter y x = false) : metric.Leads (scores ++ [y]) x i where
  score := by rw [List.getElem?_append_left h.lt_length, h.score]
  finite := h.finite
  unbeaten z hz hfinite := by
    rcases List.mem_append.1 hz with hz | hz
    · exact h.unbeaten z hz hfinite
    · obtain rfl := List.mem_singleton.1 hz
      exact hy hfinite
  first j z hj hz := by
    rw [List.getElem?_append_left (hj.trans h.lt_length)] at hz
    exact h.first j z hj hz

/-- The first finite score leads. -/
theorem leads_of_none (h : metric.Held scores none) (hy : y.isFinite = true) :
    metric.Leads (scores ++ [y]) y scores.length where
  score := by simp
  finite := hy
  unbeaten z hz hfinite := by
    rcases List.mem_append.1 hz with hz | hz
    · rw [h z hz] at hfinite
      cases hfinite
    · obtain rfl := List.mem_singleton.1 hz
      exact isBetter_self hy
  first j z hj hz hfinite := by
    rw [List.getElem?_append_left hj] at hz
    rw [h z (List.mem_of_getElem? hz)] at hfinite
    cases hfinite

/-- A score that beats the leading one leads from then on. -/
theorem Leads.overtake (h : metric.Leads scores x i) (hy : y.isFinite = true)
    (hbetter : metric.isBetter y x = true) : metric.Leads (scores ++ [y]) y scores.length where
  score := by simp
  finite := hy
  unbeaten z hz hfinite := by
    rcases List.mem_append.1 hz with hz | hz
    · have hbeats := isBetter_of_isBetter hfinite h.finite hy hbetter (h.unbeaten z hz hfinite)
      exact isBetter_asymm hy hfinite hbeats
    · obtain rfl := List.mem_singleton.1 hz
      exact isBetter_self hy
  first j z hj hz hfinite := by
    rw [List.getElem?_append_left hj] at hz
    exact isBetter_of_isBetter hfinite h.finite hy hbetter
      (h.unbeaten z (List.mem_of_getElem? hz) hfinite)

theorem Held.step {best : Option (Float × Nat)} (h : metric.Held scores best) (y : Float) :
    metric.Held (scores ++ [y]) (keepBetter metric best (y, scores.length)) := by
  unfold keepBetter
  by_cases hy : y.isFinite = true
  · rw [if_pos hy]
    rcases best with _ | ⟨x, i⟩
    · exact leads_of_none h hy
    · dsimp only
      by_cases hbetter : metric.isBetter y x = true
      · rw [if_pos hbetter]
        exact Leads.overtake h hy hbetter
      · rw [if_neg hbetter]
        exact Leads.append h fun _ => Bool.eq_false_iff.2 hbetter
  · rw [if_neg hy]
    rcases best with _ | ⟨x, i⟩
    · intro z hz
      rcases List.mem_append.1 hz with hz | hz
      · exact h z hz
      · obtain rfl := List.mem_singleton.1 hz
        exact Bool.eq_false_iff.2 hy
    · exact Leads.append h fun hfinite => absurd hfinite hy

theorem held_foldl (metric : Metric) (scores : List Float) :
    metric.Held scores (scores.zipIdx.foldl (keepBetter metric) none) := by
  induction scores using List.reverseRecOn with
  | nil => exact fun y hy => absurd hy List.not_mem_nil
  | append_singleton scores y ih =>
    rw [List.zipIdx_append, List.foldl_append]
    simpa using ih.step y

theorem Leads.isLeast (h : metric.Leads scores x i) : IsLeast {j | metric.Unbeaten scores j} i := by
  refine ⟨⟨x, h.score, h.finite, h.unbeaten⟩, ?_⟩
  rintro j ⟨y, hy, hfinite, hunbeaten⟩
  by_contra hj
  have hbeaten := hunbeaten x h.mem h.finite
  rw [h.first j y (not_le.1 hj) hy hfinite] at hbeaten
  cases hbeaten

end Metric

variable {metric : Metric} {scores : List Float} {i : Nat}

theorem bestIndex_eq_none_iff :
    bestIndex metric scores = none ↔ ∀ x ∈ scores, x.isFinite = false := by
  have hheld := Metric.held_foldl metric scores
  rw [bestIndex_eq_foldl]
  cases hbest : scores.zipIdx.foldl (keepBetter metric) none with
  | none =>
    rw [hbest] at hheld
    exact iff_of_true rfl hheld
  | some best =>
    rw [hbest] at hheld
    refine iff_of_false (by simp) fun h => ?_
    have hfinite := hheld.finite
    rw [h best.1 hheld.mem] at hfinite
    cases hfinite

/-- The search finds the first of the finite scores that no other finite score beats. -/
theorem bestIndex_eq_some_iff :
    bestIndex metric scores = some i ↔ IsLeast {j | metric.Unbeaten scores j} i := by
  have hheld := Metric.held_foldl metric scores
  rw [bestIndex_eq_foldl]
  cases hbest : scores.zipIdx.foldl (keepBetter metric) none with
  | none =>
    rw [hbest] at hheld
    refine iff_of_false (by simp) fun h => ?_
    obtain ⟨x, hx, hfinite, -⟩ := h.1
    rw [hheld x (List.mem_of_getElem? hx)] at hfinite
    cases hfinite
  | some best =>
    rw [hbest] at hheld
    rw [Option.map_some, Option.some.injEq]
    constructor
    · rintro rfl
      exact hheld.isLeast
    · exact fun h => hheld.isLeast.unique h

end ColumnFlow
