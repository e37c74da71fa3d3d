import ColumnFlow.Proofs.Transform.Placement
import ColumnFlow.Transform.Expansion
import ColumnFlow.Transform.Imputation
import ColumnFlow.Transform.Projection

/-!
# Columns and names

Scalers, projections and expansions give a column for each of their names whenever they succeed. So
a transformer that was fitted with one of them fails on a frame only if its method does. An imputer
is the same unless it fills a column that it keeps with what is not a number, since such a column has
no name.
-/
namespace ColumnFlow

namespace Numbers

variable {f : Frame} {missing : Bool} {columns : List (List Float)} {learned labels : List Label}

theorem length_raw (h : raw f = .ok columns) : columns.length = f.columns.length := by
  unfold raw at h
  split at h
  · obtain rfl := Except.ok.inj h
    exact List.length_map _
  · exact (forall₂_of_mapM h).length_eq.symm

theorem length_ofFrame (h : ofFrame missing f = .ok columns) :
    columns.length = f.columns.length := by
  unfold ofFrame at h
  obtain ⟨_, -, h⟩ := Except.exists_of_bind h
  unfold ofColumns at h
  split at h
  · cases h
  · obtain ⟨found, hraw, h⟩ := Except.exists_of_bind h
    rw [← (forall₂_of_mapM h).length_eq, length_raw hraw]

theorem length_of_matchLabels {u : Unit} (h : matchLabels learned labels = .ok u) :
    labels.length = learned.length := by
  unfold matchLabels at h
  obtain ⟨_, -, h⟩ := Except.exists_of_bind h
  dsimp only at h
  -- texts are compared, and other labels are counted
  split at h
  · split at h
    · next hsame =>
      unfold isSameList at hsame
      rw [Bool.and_eq_true, beq_iff_eq] at hsame
      exact hsame.1.symm
    · cases h
  · split at h
    · next hcount => exact (beq_iff_eq.1 hcount).symm
    · cases h

end Numbers

namespace Mapping

variable {m : Mapping} {learned : List Label} {old : Frame} {cs : List Column} {names : List String}

/-- A mapping that gives a column for each of its names. -/
def IsWhole (m : Mapping) (learned : List Label) : Prop :=
  ∀ old cs, m.asked learned old = .ok cs → ∀ name, cs.length = (m.labels name learned).length

theorem length_labels (m : Mapping) (name : String) (learned : List Label) :
    (m.labels name learned).length = (m.names.map List.length).getD m.width := by
  unfold labels
  cases m.names with
  | none => rw [List.length_map, List.length_range]; rfl
  | some names =>
    dsimp only
    split
    · next hsame => rw [beq_iff_eq.1 hsame, Option.map_some, Option.getD_some, List.length_map]
    · exact List.length_map _

/-- A mapping with names is asked for as many columns as it was learned from. -/
theorem map_of_asked (hnames : m.names = some names) (h : m.asked learned old = .ok cs) :
    old.columns.length = learned.length ∧ m.map old = .ok cs := by
  unfold asked at h
  rw [hnames] at h
  obtain ⟨_, hmatch, h⟩ := Except.exists_of_bind h
  have hlength := Numbers.length_of_matchLabels hmatch
  rw [Frame.labels, List.length_map] at hlength
  exact ⟨hlength, h⟩

/-- With names it is enough to look at frames of as many columns. -/
theorem isWhole_of_names (hnames : m.names = some names)
    (h : ∀ old cs, old.columns.length = learned.length → m.map old = .ok cs →
      cs.length = names.length) : m.IsWhole learned := by
  intro old cs hasked name
  obtain ⟨hlength, hmap⟩ := map_of_asked hnames hasked
  rw [length_labels, hnames]
  exact h old cs hlength hmap

theorem columnwise_isWhole {missing : Bool} {f : Frame} {functions : List (Float → Float)}
    (h : functions.length = f.columns.length) : (columnwise missing f functions).IsWhole f.labels := by
  have hlearned : f.labels.length = f.columns.length := List.length_map _
  refine isWhole_of_names rfl fun old cs hold hmap => ?_
  obtain ⟨columns, hcolumns, hmap⟩ := Except.exists_of_bind hmap
  obtain rfl := Except.ok.inj hmap
  rw [ofNumbers, List.length_map, List.length_zipWith, Numbers.length_ofFrame hcolumns, hold,
    List.length_map, hlearned, h, Nat.min_self]

end Mapping

namespace Method

/-- A method whose mappings give a column for each of their names. -/
def IsWhole (m : Method) : Prop :=
  ∀ parameters F mapping, m.learn parameters F = .ok mapping → mapping.IsWhole F.labels

end Method

/-! Scalers. -/

namespace Scaling

theorem mappingOf_isWhole {α : Type} {f : Frame} {columns : List (List Float)}
    (h : Numbers.ofFrame true f = .ok columns) (learned : List Float → α)
    (function : α → Float → Float) : (mappingOf f columns learned function).IsWhole f.labels :=
  Mapping.columnwise_isWhole ((List.length_map _).trans (Numbers.length_ofFrame h))

theorem isWhole_of_learn {α : Type} {f : Frame} {learned : List Float → α}
    {function : α → Float → Float} {mapping : Mapping}
    (h : learn f learned function = .ok mapping) : mapping.IsWhole f.labels := by
  obtain ⟨columns, hcolumns, h⟩ := Except.exists_of_bind h
  obtain rfl := Except.ok.inj h
  exact mappingOf_isWhole hcolumns learned function

theorem standard_isWhole : standard.IsWhole := fun _ _ _ h => isWhole_of_learn h

theorem maxAbs_isWhole : maxAbs.IsWhole := fun _ _ _ h => isWhole_of_learn h

theorem minMax_isWhole : minMax.IsWhole := by
  intro parameters F mapping h
  obtain ⟨range, -, h⟩ := Except.exists_of_bind h
  obtain ⟨columns, hcolumns, h⟩ := Except.exists_of_bind h
  obtain ⟨low, -, h⟩ := Except.exists_of_bind h
  obtain ⟨high, -, h⟩ := Except.exists_of_bind h
  obtain rfl := Except.ok.inj h
  exact mappingOf_isWhole hcolumns _ _

theorem robust_isWhole : robust.IsWhole := by
  intro parameters F mapping h
  obtain ⟨columns, hcolumns, h⟩ := Except.exists_of_bind h
  obtain ⟨range, -, h⟩ := Except.exists_of_bind h
  obtain rfl := Except.ok.inj h
  exact mappingOf_isWhole hcolumns _ _

end Scaling

/-! Projections. -/

namespace Projection

theorem mapping_isWhole (method : String) (basis : Basis) (learned : List Label) :
    (mapping method basis).IsWhole learned := by
  refine Mapping.isWhole_of_names rfl fun old cs _ hmap => ?_
  obtain ⟨columns, -, hmap⟩ := Except.exists_of_bind hmap
  obtain rfl := Except.ok.inj hmap
  unfold Mapping.ofNumbers Basis.project numbered
  rw [List.length_map, List.length_map, List.length_map, List.length_range]

theorem principal_isWhole : principal.IsWhole := by
  intro parameters F m h
  obtain ⟨columns, -, h⟩ := Except.exists_of_bind h
  obtain ⟨count, -, h⟩ := Except.exists_of_bind h
  obtain rfl := Except.ok.inj h
  exact mapping_isWhole _ _ _

theorem factors_isWhole : factors.IsWhole := by
  intro parameters F m h
  obtain ⟨columns, -, h⟩ := Except.exists_of_bind h
  obtain ⟨_, -, h⟩ := Except.exists_of_bind h
  obtain rfl := Except.ok.inj h
  exact mapping_isWhole _ _ _

theorem independent_isWhole : independent.IsWhole := by
  intro parameters F m h
  unfold independent at h
  dsimp only at h
  split at h
  · cases h
  obtain ⟨columns, -, h⟩ := Except.exists_of_bind h
  split at h
  · cases h
  obtain ⟨_, -, h⟩ := Except.exists_of_bind h
  obtain ⟨count, -, h⟩ := Except.exists_of_bind h
  split at h
  · cases h
  split at h
  · cases h
  split at h
  · cases h
  obtain rfl := Except.ok.inj h
  exact mapping_isWhole _ _ _

end Projection

/-! Expansions. -/

namespace Expansion

theorem polynomial_isWhole : polynomial.IsWhole := by
  intro parameters F m h
  unfold polynomial at h
  dsimp only at h
  obtain ⟨columns, -, h⟩ := Except.exists_of_bind h
  obtain ⟨⟨low, high⟩, -, h⟩ := Except.exists_of_bind h
  dsimp only at h
  split at h
  · cases h
  obtain ⟨names, hnames, h⟩ := Except.exists_of_bind h
  obtain rfl := Except.ok.inj h
  refine Mapping.isWhole_of_names rfl fun old cs _ hmap => ?_
  obtain ⟨columns, -, hmap⟩ := Except.exists_of_bind hmap
  obtain rfl := Except.ok.inj hmap
  rw [Mapping.ofNumbers, List.length_map, List.length_map, (forall₂_of_mapM hnames).length_eq]

theorem binary_isWhole : binary.IsWhole := by
  intro parameters F m h
  obtain ⟨_, -, h⟩ := Except.exists_of_bind h
  obtain rfl := Except.ok.inj h
  refine Mapping.isWhole_of_names rfl fun old cs hold hmap => ?_
  obtain ⟨columns, hcolumns, hmap⟩ := Except.exists_of_bind hmap
  obtain ⟨_, -, hmap⟩ := Except.exists_of_bind hmap
  obtain ⟨kind, -, hmap⟩ := Except.exists_of_bind hmap
  obtain rfl := Except.ok.inj hmap
  rw [List.length_map, List.length_map, Numbers.length_ofFrame hcolumns, hold]

theorem sumAndDifference_isWhole : sumAndDifference.IsWhole := by
  intro parameters F m h
  obtain rfl := Except.ok.inj h
  intro old cs hasked name
  obtain ⟨columns, -, hmap⟩ := Except.exists_of_bind hasked
  obtain rfl := Except.ok.inj hmap
  rw [Mapping.length_labels]
  rfl

end Expansion

/-! Imputers. -/

namespace Imputation

variable {choices : Choices} {family : Family} {f : Frame} {cells : List (List Value)}
  {treatments : List Treatment}

theorem length_cellsIn (h : cellsIn choices f family = .ok cells) :
    cells.length = f.columns.length := by
  cases family with
  | whole dtype =>
    obtain rfl := Except.ok.inj h
    exact List.length_map _
  | objects =>
    obtain ⟨_, -, h⟩ := Except.exists_of_bind h
    obtain rfl := Except.ok.inj h
    exact List.length_map _
  | binary =>
    obtain ⟨columns, hcolumns, h⟩ := Except.exists_of_bind h
    obtain rfl := Except.ok.inj h
    exact (List.length_map _).trans (Numbers.length_ofFrame hcolumns)

theorem length_read {asObjects : Bool} (h : read choices asObjects f = .ok (family, cells)) :
    cells.length = f.columns.length := by
  have hrest : ∀ kind, (cellsIn choices f kind >>= fun found => checkGap choices kind >>= fun _ =>
      .ok (kind, found)) = .ok (family, cells) → cells.length = f.columns.length := by
    intro kind h
    obtain ⟨found, hfound, h⟩ := Except.exists_of_bind h
    obtain ⟨_, -, h⟩ := Except.exists_of_bind h
    obtain ⟨-, rfl⟩ := Prod.mk.inj (Except.ok.inj h)
    exact length_cellsIn hfound
  unfold read at h
  obtain ⟨_, -, h⟩ := Except.exists_of_bind h
  by_cases hempty : (decide (f.rows = 0) || f.columns.isEmpty) = true
  · rw [if_pos hempty] at h
    cases h
  rw [if_neg hempty] at h
  dsimp only at h
  split at h
  · split at h <;> obtain ⟨kind, -, h⟩ := Except.exists_of_bind h <;> exact hrest kind h
  · obtain ⟨kind, -, h⟩ := Except.exists_of_bind h
    exact hrest kind h

/-- Whether a column comes of a treatment is up to the treatment, not to the cells. -/
theorem length_filterMap_zip {α : Type} {g : Treatment × List Value → Option α}
    {p : Treatment → Bool} (hlength : treatments.length ≤ cells.length)
    (h : ∀ t cs, (g (t, cs)).isSome = p t) :
    ((treatments.zip cells).filterMap g).length = treatments.countP p := by
  have hfirst : (treatments.zip cells).map Prod.fst = treatments := List.map_fst_zip hlength
  rw [List.length_filterMap_eq_countP]
  conv_rhs => rw [← hfirst, List.countP_map]
  exact List.countP_congr fun ⟨t, cs⟩ _ => by rw [h t cs, Function.comp_apply]

/-- A column that is kept has a name unless its filler is not a number. -/
theorem length_names (h : ∀ t ∈ treatments, ∀ v, t.filler = some v → isUnequal v = false) :
    (names treatments).length =
      treatments.countP (·.filler.isSome) + treatments.countP (·.flagged) := by
  have hnamed : (treatments.filterMap Treatment.name?).length =
      treatments.countP (·.filler.isSome) := by
    rw [List.length_filterMap_eq_countP]
    refine List.countP_congr fun t ht => ?_
    unfold Treatment.name?
    cases hfiller : t.filler with
    | none => rfl
    | some v => rw [Option.bind_some, h t ht v hfiller]; rfl
  unfold names
  rw [List.length_append, hnamed, List.length_map, ← List.countP_eq_length_filter]

theorem apply_isWhole {learned : List Label} (hlength : treatments.length = learned.length)
    (h : ∀ t ∈ treatments, ∀ v, t.filler = some v → isUnequal v = false) :
    Mapping.IsWhole ⟨some (names treatments), (names treatments).length,
      apply choices family treatments⟩ learned := by
  refine Mapping.isWhole_of_names rfl fun old cs hold hmap => ?_
  obtain ⟨⟨current, cells⟩, hread, hmap⟩ := Except.exists_of_bind hmap
  obtain ⟨_, -, hmap⟩ := Except.exists_of_bind hmap
  obtain rfl := Except.ok.inj hmap
  have hcells : treatments.length ≤ cells.length := by
    rw [length_read hread, hold, hlength]
  rw [List.length_append, length_names h,
    length_filterMap_zip (p := (·.filler.isSome)) hcells fun t cs => Option.isSome_map,
    length_filterMap_zip (p := (·.flagged)) hcells fun t cs => by cases t.flagged <;> rfl]

/-- Where empty columns are dropped, so are those that would be filled with what is not a number. -/
theorem filler_of_learn {label : Label} {column : List Value} {v : Value}
    (hkeep : choices.keepEmpty = false)
    (h : (Treatment.learn choices family label column).filler = some v) : isUnequal v = false := by
  unfold Treatment.learn at h
  rw [hkeep] at h
  dsimp only at h
  rw [if_neg Bool.false_ne_true] at h
  split at h
  · cases h
  · simpa using Option.filter_eq_some_iff.1 h |>.2

/-- An imputer that drops empty columns gives a column for each of its names. -/
theorem simple_isWhole {parameters : Options} {F : Frame} {m : Mapping}
    (hkeep : Parameters.flag parameters "keep_empty_features" false = false)
    (h : simple.learn parameters F = .ok m) : m.IsWhole F.labels := by
  obtain ⟨⟨family, cells⟩, hread, h⟩ := Except.exists_of_bind h
  obtain ⟨_, -, h⟩ := Except.exists_of_bind h
  obtain ⟨_, -, h⟩ := Except.exists_of_bind h
  obtain rfl := Except.ok.inj h
  refine apply_isWhole ?_ fun t ht v hv => ?_
  · rw [List.length_map, List.length_zip, length_read hread, Frame.labels, List.length_map,
      Nat.min_self]
  · obtain ⟨p, -, rfl⟩ := List.mem_map.1 ht
    exact filler_of_learn hkeep hv

end Imputation

/-! Transformers. -/

/-- What was learned as a whole mapping fails only if the mapping does. -/
theorem Mapping.IsWhole.run_isOk {m : Mapping} {name : String} {sample cols : List Label}
    {X : Frame} (hm : m.IsWhole sample) (hX : Frame.hasRepeats X.labels = false)
    (hcols : (X.lookUp cols).isOk = true) (hsome : cols ≠ [])
    (hbools : cols.all Label.isBool = false) (hstable : Labels.Stable cols)
    (hnames : Labels.Stable (m.labels name sample)) :
    ∃ olds, X.select cols = .ok ⟨X.index, olds⟩ ∧
      ((m.fittedTo name cols sample).run X).outcome.isOk = (m.asked sample ⟨X.index, olds⟩).isOk := by
  obtain ⟨olds, hselect, -, herror, hok⟩ :=
    m.run_placed name sample hX hcols hsome hbools hstable hnames
  refine ⟨olds, hselect, ?_⟩
  cases hasked : m.asked sample ⟨X.index, olds⟩ with
  | error e =>
    rw [herror e hasked]
    rfl
  | ok cs =>
    obtain ⟨G, hG, -⟩ := (hok cs hasked).2 (hm _ _ hasked name)
    rw [hG]
    rfl

end ColumnFlow
