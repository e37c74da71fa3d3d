import ColumnFlow.Node.Predictions
import ColumnFlow.Proofs.Frame.Labels

/-!
# Frames side by side

What comes of the outputs of parts that all have the rows of the input: their columns in order, over
the row labels of the input, with labels that were made distinct.
-/
namespace ColumnFlow

/-- A table of counts holds nothing but counts that were given. -/
theorem mem_countTable (counts : List (Label × Nat)) :
    ∀ c ∈ countTable counts, ∃ d ∈ counts, c.2 = d.2 := by
  unfold countTable
  refine List.foldlRecOn counts _ (motive := fun table : List (Label × Nat) =>
    ∀ c ∈ table, ∃ d ∈ counts, c.2 = d.2)
    (by simp) fun table htable d hd c hc => ?_
  split at hc
  · obtain ⟨e, he, rfl⟩ := List.mem_map.1 hc
    split
    · exact ⟨d, hd, rfl⟩
    · exact htable _ he
  · rcases List.mem_append.1 hc with hc | hc
    · exact htable _ hc
    · rw [List.mem_singleton.1 hc]
      exact ⟨d, hd, rfl⟩

namespace Frame

/-- The columns of some frames in order, over the rows of another. -/
def sideBySide (outputs : List Frame) (X : Frame) : Frame :=
  let columns := outputs.flatMap (·.columns)
  Frame.relabel ⟨X.index, columns⟩
    (Labels.makeUnique (Labels.joined (columns.map (·.label))))

/-- What columns hold, without their labels. -/
def values (f : Frame) : List (Dtype × List Value) := f.columns.map fun c => (c.dtype, c.cells)

/-- A frame `F` that is made of others: their columns in order with unchanged values, over the row
labels of `Z`, with labels that are theirs, made distinct. -/
structure Concatenates (F : Frame) (outputs : List Frame) (Z : Frame) : Prop where
  index : F.index = Z.index
  values : F.values = outputs.flatMap Frame.values
  labels : F.labels = Labels.makeUnique (outputs.flatMap Frame.labels)
  distinct : F.labels.Nodup

theorem values_relabel {f : Frame} {labels : List Label} (h : labels.length = f.columns.length) :
    (f.relabel labels).values = f.values := by
  have hzip : ∀ (cs : List Column) (ls : List Label), ls.length = cs.length →
      (cs.zipWith Column.rename ls).map (fun c => (c.dtype, c.cells)) =
        cs.map fun c => (c.dtype, c.cells) := by
    intro cs ls hlen
    rw [List.map_zipWith]
    induction cs generalizing ls with
    | nil => rfl
    | cons c cs ih =>
      obtain ⟨l, ls, rfl⟩ := List.exists_cons_of_length_eq_add_one hlen
      rw [List.zipWith_cons_cons, List.map_cons, ih ls (Nat.succ.inj hlen)]
      rfl
  exact hzip f.columns _ ((Labels.length_unified labels).trans h)

theorem labels_relabel {f : Frame} {labels : List Label} (h : labels.length = f.columns.length) :
    (f.relabel labels).labels = Labels.unified labels := by
  have hzip : ∀ (cs : List Column) (ls : List Label), ls.length = cs.length →
      (cs.zipWith Column.rename ls).map (·.label) = ls := by
    intro cs ls hlen
    induction cs generalizing ls with
    | nil => rw [List.eq_nil_of_length_eq_zero hlen]; rfl
    | cons c cs ih =>
      obtain ⟨l, ls, rfl⟩ := List.exists_cons_of_length_eq_add_one hlen
      rw [List.zipWith_cons_cons, List.map_cons, ih ls (Nat.succ.inj hlen)]
      rfl
  exact hzip f.columns _ ((Labels.length_unified labels).trans h)

variable {outputs : List Frame} {Z : Frame}

theorem length_labels_sideBySide (outputs : List Frame) :
    (Labels.makeUnique (Labels.joined ((outputs.flatMap (·.columns)).map (·.label)))).length =
      (outputs.flatMap (·.columns)).length := by
  rw [Labels.length_makeUnique, Labels.length_joined, List.length_map]

theorem values_sideBySide (outputs : List Frame) (Z : Frame) :
    (sideBySide outputs Z).values = outputs.flatMap values := by
  refine (values_relabel (length_labels_sideBySide outputs)).trans ?_
  unfold values
  rw [List.map_flatMap]

theorem concatenates_sideBySide (h : ∀ f ∈ outputs, ∀ l ∈ f.labels, l.isText = true) (Z : Frame) :
    (sideBySide outputs Z).Concatenates outputs Z := by
  have hlabels : (outputs.flatMap (·.columns)).map (·.label) = outputs.flatMap labels := by
    unfold labels
    rw [List.map_flatMap]
  have htexts : ∀ l ∈ outputs.flatMap labels, l.isText = true := by
    intro l hl
    obtain ⟨f, hf, hmem⟩ := List.mem_flatMap.1 hl
    exact h f hf l hmem
  have heq : (sideBySide outputs Z).labels = Labels.makeUnique (outputs.flatMap labels) := by
    refine (labels_relabel (length_labels_sideBySide outputs)).trans ?_
    rw [hlabels, Labels.joined_of_texts htexts]
    exact Labels.unified_of_texts (Labels.isText_makeUnique htexts)
  refine ⟨rfl, values_sideBySide outputs Z, heq, ?_⟩
  rw [heq]
  exact Labels.nodup_makeUnique htexts

end Frame

theorem Memory.concatenate_of_rows {outputs : List Frame} {X : Frame}
    (h : ∀ f ∈ outputs, f.rows = X.rows) (m : Memory) (s : Site) (names : List Label) :
    m.concatenate s names outputs X = pure (Frame.sideBySide outputs X) := by
  have hcounts : ((countTable (names.zip (outputs.map Frame.rows))).any fun c => c.2 != X.rows) =
      false := by
    refine List.any_eq_false.2 fun c hc => ?_
    obtain ⟨d, hd, hrows⟩ := mem_countTable _ c hc
    obtain ⟨f, hf, hfd⟩ := List.mem_map.1 (List.of_mem_zip hd).2
    rw [hrows, ← hfd, h f hf]
    simp
  have hall : (outputs.any fun f => f.rows != X.rows) = false := by
    refine List.any_eq_false.2 fun f hf => ?_
    rw [h f hf]
    simp
  unfold concatenate
  simp only [hcounts, hall, Bool.false_eq_true, if_false]
  rfl

end ColumnFlow
