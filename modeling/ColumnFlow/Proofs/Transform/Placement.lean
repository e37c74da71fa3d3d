import ColumnFlow.Proofs.Frame.Finding
import ColumnFlow.Proofs.Transform.ByLabel
import ColumnFlow.Transform.Scaling

/-!
# New columns beside those that stay

A mapping touches the columns it was learned from and no others. New columns that keep the labels of
the old ones take their places; all others come last, when the old ones are gone. Either way the
result has the columns that are left alone, in their order, and the new columns, and nothing else.
-/
namespace ColumnFlow

namespace Frame

variable {X : Frame} {cols : List Label} {l : Label} {c d : Column}

/-- What some labels find by themselves. -/
def Finding (X : Frame) (cols : List Label) (lookups : List (Label → Bool)) : Prop :=
  List.Forall₂ (fun l found => (∀ c ∈ X.columns, found c.label = l.finds c.label) ∧
    ∃ c ∈ X.columns, l.finds c.label = true) cols lookups

/-- Columns of a frame, one for each of some labels. -/
def Standing (X : Frame) (cols : List Label) (olds : List Column) : Prop :=
  List.Forall₂ (fun l c => c ∈ X.columns ∧ l.finds c.label = true) cols olds

/-- The columns that some labels do not find. -/
def others (X : Frame) (cols : List Label) : List Column :=
  X.columns.filter fun c => !cols.any fun l => l.finds c.label

theorem found_of_any (h : X.labels.any (Labels.found X.labels l) = true) :
    Labels.found X.labels l = l.finds ∧ ∃ c ∈ X.columns, l.finds c.label = true := by
  unfold Labels.found at h ⊢
  split at h
  · next haccepts =>
    obtain ⟨x, hx, hlx⟩ := List.any_eq_true.1 h
    obtain ⟨c, hc, rfl⟩ := List.mem_map.1 hx
    rw [if_pos haccepts]
    exact ⟨rfl, c, hc, hlx⟩
  · simp at h

theorem exists_finding (hstable : Labels.Stable cols) (hcols : (X.lookUp cols).isOk = true) :
    ∃ lookups, X.lookUp cols = .ok lookups ∧ X.Finding cols lookups := by
  unfold lookUp at hcols ⊢
  dsimp only at hcols ⊢
  split at hcols
  case isFalse => cases hcols
  case isTrue hall =>
    refine ⟨_, if_pos hall, ?_⟩
    rw [List.all_map, List.all_eq_true] at hall
    unfold Labels.Stable at hstable
    refine List.forall₂_map_right_iff.2 (List.forall₂_iff_get.2 ⟨hstable.length_eq, ?_⟩)
    intro i hi hi'
    have hfinds := (List.forall₂_iff_get.1 hstable).2 i hi hi'
    obtain ⟨heq, c, hc, hfound⟩ := found_of_any (hall _ (List.get_mem _ ⟨i, hi'⟩))
    rw [heq]
    refine ⟨fun c _ => (Label.finds_congr hfinds c.label).symm, c, hc, ?_⟩
    rw [Label.finds_congr hfinds]
    exact hfound

theorem Finding.standing {lookups : List (Label → Bool)} (h : X.Finding cols lookups)
    (hX : hasRepeats X.labels = false) :
    X.Standing cols (lookups.flatMap fun found => X.columns.filter fun c => found c.label) := by
  induction h with
  | nil => exact .nil
  | cons hfirst _ ih =>
    obtain ⟨hfound, c, hc, hlc⟩ := hfirst
    have hone := filter_finds hX hc hlc
    rw [List.flatMap_cons, List.filter_congr hfound, hone]
    exact .cons ⟨hc, hlc⟩ ih

theorem Finding.any_eq {lookups : List (Label → Bool)} (h : X.Finding cols lookups)
    (hc : c ∈ X.columns) :
    (lookups.any fun found => found c.label) = cols.any fun l => l.finds c.label := by
  induction h with
  | nil => rfl
  | cons hfirst _ ih => rw [List.any_cons, List.any_cons, hfirst.1 c hc, ih]

theorem exists_select (hX : hasRepeats X.labels = false) (hstable : Labels.Stable cols)
    (hbools : (!cols.isEmpty && cols.all Label.isBool) = false)
    (hcols : (X.lookUp cols).isOk = true) :
    ∃ olds, X.select cols = .ok ⟨X.index, olds⟩ ∧ X.Standing cols olds := by
  obtain ⟨lookups, hlookups, hfinding⟩ := exists_finding hstable hcols
  refine ⟨_, ?_, hfinding.standing hX⟩
  unfold select
  rw [hbools, if_neg Bool.false_ne_true, hlookups]
  rfl

theorem drop_stable (hstable : Labels.Stable cols) (hcols : (X.lookUp cols).isOk = true) :
    X.drop cols = .ok ⟨X.index, X.others cols⟩ := by
  obtain ⟨lookups, hlookups, hfinding⟩ := exists_finding hstable hcols
  unfold drop others
  rw [hlookups, Except.bind_ok]
  refine congrArg (fun cs => Except.ok (Frame.mk X.index cs)) (List.filter_congr fun c hc => ?_)
  rw [hfinding.any_eq hc]

/-! Columns in the places of others. -/

section Replacing

variable {olds new : List Column}

theorem successor_cons_of_finds (h : l.finds c.label = true) (cols : List Label)
    (new : List Column) : Mapping.successor (l :: cols) (d :: new) c = d.rename c.label := by
  unfold Mapping.successor
  simp [h]

theorem successor_cons_of_not_finds (h : l.finds c.label = false) (cols : List Label)
    (new : List Column) :
    Mapping.successor (l :: cols) (d :: new) c = Mapping.successor cols new c := by
  unfold Mapping.successor
  simp [h]

theorem map_successor_others (X : Frame) (cols : List Label) (new : List Column) :
    (X.others cols).map (Mapping.successor cols new) = X.others cols := by
  refine (List.map_congr_left fun c hc => ?_).trans (List.map_id _)
  have hnot : (cols.zip new).find? (fun p => p.1.finds c.label) = none := by
    have hany := (List.mem_filter.1 hc).2
    rw [Bool.not_eq_true', List.any_eq_false] at hany
    exact List.find?_eq_none.2 fun p hp => hany p.1 (List.of_mem_zip hp).1
  unfold Mapping.successor
  rw [hnot]
  rfl

theorem others_sublist_replace (X : Frame) (cols : List Label) (new : List Column) :
    (X.others cols).Sublist (Mapping.replace X cols new).columns := by
  rw [← map_successor_others X cols new]
  exact List.filter_sublist.map _

namespace Standing

theorem exists_label (h : X.Standing cols olds) (hc : c ∈ olds) :
    c ∈ X.columns ∧ ∃ l ∈ cols, l.finds c.label = true := by
  induction h with
  | nil => cases hc
  | cons hfirst _ ih =>
    rcases List.mem_cons.1 hc with rfl | hc
    · exact ⟨hfirst.1, _, List.mem_cons_self, hfirst.2⟩
    · obtain ⟨hmem, l, hl, hlc⟩ := ih hc
      exact ⟨hmem, l, List.mem_cons_of_mem _ hl, hlc⟩

theorem exists_column (h : X.Standing cols olds) (hl : l ∈ cols) :
    ∃ c ∈ olds, c ∈ X.columns ∧ l.finds c.label = true := by
  induction h with
  | nil => cases hl
  | cons hfirst _ ih =>
    rcases List.mem_cons.1 hl with rfl | hl
    · exact ⟨_, List.mem_cons_self, hfirst⟩
    · obtain ⟨c, hc, hfound⟩ := ih hl
      exact ⟨c, List.mem_cons_of_mem _ hc, hfound⟩

/-- The columns that stand under distinct labels are replaced one by one. -/
theorem map_successor (h : X.Standing cols olds) (hcols : hasRepeats cols = false)
    (hlength : new.length = cols.length) :
    olds.map (Mapping.successor cols new) = olds.zipWith (fun c d => d.rename c.label) new := by
  rw [hasRepeats_eq_false] at hcols
  induction h generalizing new with
  | nil => rfl
  | @cons l c cols olds hfirst hrest ih =>
    rw [List.pairwise_cons] at hcols
    cases new with
    | nil => cases hlength
    | cons d new =>
      have htail : ∀ e ∈ olds,
          Mapping.successor (l :: cols) (d :: new) e = Mapping.successor cols new e := by
        intro e he
        obtain ⟨-, k, hk, hke⟩ := exists_label hrest he
        refine successor_cons_of_not_finds (Bool.eq_false_iff.2 fun hle => ?_) cols new
        exact Bool.eq_false_iff.1 (hcols.1 k hk) (Label.finds_trans hle (Label.finds_symm hke))
      rw [List.map_cons, List.zipWith_cons_cons, successor_cons_of_finds hfirst.2,
        List.map_congr_left htail, ih hcols.2 (Nat.succ.inj hlength)]

theorem nodup (h : X.Standing cols olds) (hcols : hasRepeats cols = false) : olds.Nodup := by
  rw [hasRepeats_eq_false] at hcols
  induction h with
  | nil => exact .nil
  | cons hfirst hrest ih =>
    rw [List.pairwise_cons] at hcols
    refine List.nodup_cons.2 ⟨fun hmem => ?_, ih hcols.2⟩
    obtain ⟨-, k, hk, hkc⟩ := exists_label hrest hmem
    exact Bool.eq_false_iff.1 (hcols.1 k hk) (Label.finds_trans hfirst.2 (Label.finds_symm hkc))

theorem finds (h : X.Standing cols olds) :
    List.Forall₂ (fun a b => a.finds b = true) cols (olds.map (·.label)) :=
  List.forall₂_map_right_iff.2 (h.imp fun _ _ hfound => hfound.2)

/-- They are all the columns that some of the labels find. -/
theorem perm (h : X.Standing cols olds) (hX : hasRepeats X.labels = false)
    (hcols : hasRepeats cols = false) :
    (X.columns.filter fun c => cols.any fun l => l.finds c.label).Perm olds := by
  have hnodup : X.columns.Nodup := by
    refine (List.pairwise_map.1 (hasRepeats_eq_false.1 hX)).imp fun hnot heq => ?_
    rw [heq, finds_self] at hnot
    cases hnot
  refine (List.perm_ext_iff_of_nodup (hnodup.filter _) (h.nodup hcols)).2 fun c => ?_
  rw [List.mem_filter, List.any_eq_true]
  refine ⟨?_, h.exists_label⟩
  rintro ⟨hc, l, hl, hlc⟩
  obtain ⟨d, hd, hmem, hld⟩ := h.exists_column hl
  rwa [eq_of_finds hX hc hmem hlc hld]

theorem replace_perm (h : X.Standing cols olds) (hX : hasRepeats X.labels = false)
    (hcols : hasRepeats cols = false) (hlength : new.length = cols.length) :
    (Mapping.replace X cols new).columns.Perm
      (X.others cols ++ olds.zipWith (fun c d => d.rename c.label) new) := by
  have hsplit : (X.others cols ++ X.columns.filter fun c => cols.any fun l => l.finds c.label).Perm
      X.columns := by
    simpa only [others, Bool.not_not] using
      List.filter_append_perm (fun c => !cols.any fun l => l.finds c.label) X.columns
  refine (hsplit.symm.map (Mapping.successor cols new)).trans ?_
  rw [List.map_append, map_successor_others, ← h.map_successor hcols hlength]
  exact ((h.perm hX hcols).map _).append_left _

end Standing

end Replacing

/-! New columns under new labels. -/

/-- New columns with the values of others, which some names find one by one. -/
structure Placed (names : List Label) (cs placed : List Column) : Prop where
  named : List.Forall₂ (fun name d => name.finds d.label = true) names placed
  values : placed.map (fun d => (d.dtype, d.cells)) = cs.map fun c => (c.dtype, c.cells)

theorem placed_rename {names found : List Label} {cs : List Column}
    (h : List.Forall₂ (fun a b => a.finds b = true) names found) (hlength : cs.length = names.length) :
    Placed names cs (cs.zipWith Column.rename found) := by
  induction h generalizing cs with
  | nil =>
    obtain rfl := List.eq_nil_of_length_eq_zero hlength
    exact ⟨.nil, rfl⟩
  | cons hfirst _ ih =>
    cases cs with
    | nil => cases hlength
    | cons c cs =>
      obtain ⟨hnamed, hvalues⟩ := ih (Nat.succ.inj hlength)
      exact ⟨.cons hfirst hnamed, congrArg (List.cons _) hvalues⟩

/-- Labels stay distinct unless a column that is left alone has one of the new names. -/
theorem Placed.not_repeated {names : List Label} {cs placed : List Column} {G : Frame}
    (h : Placed names cs placed) (hX : hasRepeats X.labels = false)
    (hnames : hasRepeats names = false)
    (hothers : ∀ c ∈ X.others cols, ∀ name ∈ names, name.finds c.label = false)
    (hperm : G.columns.Perm (X.others cols ++ placed)) : hasRepeats G.labels = false := by
  have hnew : hasRepeats (placed.map (·.label)) = false := by
    rw [← hasRepeats_congr (List.forall₂_map_right_iff.2 h.named), hnames]
  rw [labels, hasRepeats_eq_false, List.pairwise_map] at hX
  rw [hasRepeats_eq_false, List.pairwise_map] at hnew
  rw [labels, hasRepeats_eq_false, List.pairwise_map, hperm.pairwise_iff Label.not_finds_symm,
    List.pairwise_append]
  refine ⟨hX.filter _, hnew, fun c hc d hd => Bool.eq_false_iff.2 fun hcd => ?_⟩
  obtain ⟨i, hi, rfl⟩ := List.getElem_of_mem hd
  have hi' : i < names.length := h.named.length_eq ▸ hi
  have hfinds := (List.forall₂_iff_get.1 h.named).2 i hi' hi
  exact Bool.eq_false_iff.1 (hothers c hc _ (List.getElem_mem hi'))
    (Label.finds_trans hfinds (Label.finds_symm hcd))

/-- What is made of a frame when some of its columns are mapped to new ones: the others are left
alone, in their order, and the new ones are found by their names. -/
structure Remade (X : Frame) (cols names : List Label) (cs : List Column) (G : Frame) : Prop where
  index : G.index = X.index
  kept : (X.others cols).Sublist G.columns
  whole : ∃ placed, Placed names cs placed ∧ G.columns.Perm (X.others cols ++ placed) ∧
    (hasRepeats names = false →
      (∀ c ∈ X.others cols, ∀ name ∈ names, name.finds c.label = false) →
        hasRepeats G.labels = false ∧ ∀ l : Label, G.columns.filter (fun c => l.finds c.label) =
          (X.others cols ++ placed).filter fun c => l.finds c.label)

theorem filter_eq_of_perm {G : Frame} {cs : List Column} (hG : hasRepeats G.labels = false)
    (hperm : G.columns.Perm cs) (l : Label) :
    G.columns.filter (fun c => l.finds c.label) = cs.filter fun c => l.finds c.label := by
  have hfound := hperm.filter fun c => l.finds c.label
  by_cases hany : ∃ c ∈ G.columns, l.finds c.label = true
  · obtain ⟨c, hc, hlc⟩ := hany
    rw [filter_finds hG hc hlc] at hfound ⊢
    exact List.singleton_perm.1 hfound
  · have hnone : G.columns.filter (fun c => l.finds c.label) = [] :=
      List.filter_eq_nil_iff.2 fun c hc hlc => hany ⟨c, hc, hlc⟩
    rw [hnone] at hfound ⊢
    exact (List.nil_perm.1 hfound).symm

theorem remade_of_perm {names : List Label} {cs placed : List Column} {G : Frame}
    (hX : hasRepeats X.labels = false) (hindex : G.index = X.index)
    (hkept : (X.others cols).Sublist G.columns) (hplaced : Placed names cs placed)
    (hperm : G.columns.Perm (X.others cols ++ placed)) : X.Remade cols names cs G :=
  ⟨hindex, hkept, placed, hplaced, hperm, fun hnames hothers =>
    have hG := hplaced.not_repeated hX hnames hothers hperm
    ⟨hG, filter_eq_of_perm hG hperm⟩⟩

end Frame

namespace Mapping

variable {m : Mapping} {name : String} {learned sample cols names : List Label} {X : Frame}
  {cs olds : List Column}

/-- What a mapping makes of the columns that it is given. -/
def asked (m : Mapping) (learned : List Label) (old : Frame) : Except Failure (List Column) := do
  if m.names.isSome then Numbers.matchLabels learned old.labels
  m.map old

theorem finds_of_isSameList {as bs : List Label} (h : Numbers.isSameList as bs = true) :
    List.Forall₂ (fun a b => a.finds b = true) as bs := by
  unfold Numbers.isSameList at h
  rw [Bool.and_eq_true, beq_iff_eq, List.all_eq_true] at h
  refine List.forall₂_iff_zip.2 ⟨h.1, fun {a b} hab => ?_⟩
  have hsame := h.2 (a, b) hab
  unfold Scalar.same at hsame
  rw [Bool.and_eq_true, beq_iff_eq] at hsame
  exact (Label.finds_iff a b).2 (.inl hsame.1)

/-- Generated names are distinct. -/
theorem not_repeated_generated (name : String) (width : ℕ) :
    Frame.hasRepeats ((List.range width).map fun i => Scalar.text (name ++ toString i)) = false := by
  rw [Frame.hasRepeats_eq_false, List.pairwise_map]
  refine (List.nodup_range (n := width)).imp fun {i j} hne => Bool.eq_false_iff.2 fun hfinds => hne ?_
  have htext := (Label.finds_iff_left rfl).1 hfinds
  simpa using htext.symm

/-- Where new columns take the places of old ones, the labels of these are distinct. -/
theorem not_repeated_columns (hsame : Numbers.isSameList (m.labels name sample) cols = true)
    (hstanding : X.Standing cols olds) (hasked : m.asked learned ⟨X.index, olds⟩ = .ok cs) :
    Frame.hasRepeats cols = false := by
  cases hnames : m.names with
  | none =>
    rw [← Frame.hasRepeats_congr (finds_of_isSameList hsame)]
    unfold labels
    rw [hnames]
    exact not_repeated_generated _ _
  | some names =>
    rw [Frame.hasRepeats_congr hstanding.finds]
    unfold asked at hasked
    rw [hnames] at hasked
    obtain ⟨_, hmatch, -⟩ := Except.exists_of_bind hasked
    unfold Numbers.matchLabels at hmatch
    obtain ⟨_, hcheck, -⟩ := Except.exists_of_bind hmatch
    unfold Numbers.checkLabels at hcheck
    split at hcheck
    · cases hcheck
    · next hrepeats => exact Bool.not_eq_true _ ▸ hrepeats

/-- What a method leaves behind of what it has learned. -/
def paramsOf (name : String) (cols names : List Label) : Options := [
  (.text "type", .text name),
  (.text "columns", .ofLabels cols),
  (.text "feature_names", .ofLabels names)]

theorem new_paramsOf (name : String) (names : List Label)
    (hselect : X.select cols = .ok ⟨X.index, olds⟩) :
    m.new learned (paramsOf name cols names) X = m.asked learned ⟨X.index, olds⟩ >>= fun cs =>
      (Frame.mk X.index cs).relabelAs (.ofLabels names) := by
  have hcolumns : (paramsOf name cols names).getD "columns" .null = .ofLabels cols := rfl
  have hnames : (paramsOf name cols names).getD "feature_names" .null = .ofLabels names := rfl
  have hcheck : Fitted.check (paramsOf name cols names) "transformer_object" = .ok () := rfl
  have hchosen : chosen (.ofLabels cols) X = .ok ⟨X.index, olds⟩ := by
    unfold chosen
    rw [extract_ofLabels, hselect]
    rfl
  have hrows : checkRows ⟨X.index, olds⟩ X = .ok () := if_pos rfl
  unfold new asked
  rw [hcolumns, hnames, hcheck, Except.bind_ok, hchosen, Except.bind_ok, hrows]
  cases m.names.isSome <;> simp only [Bool.false_eq_true, if_false, if_true, bind_assoc] <;> rfl

theorem relabelAs_ofLabels (index : List Label) (cs : List Column) (names : List Label) :
    (Frame.mk index cs).relabelAs (.ofLabels names) =
      if names.length = cs.length then .ok ⟨index, cs.zipWith Column.rename (Labels.unified names)⟩
      else .error (.unusable .value) := by
  unfold Value.ofLabels Frame.relabelAs
  simp only [labels?_ofLabels]
  rfl

/-- Only the last label counts. -/
theorem zipWith_rename_rename {found : List Label} (h : cs.length = found.length) :
    olds.zipWith (fun c d => d.rename c.label) (cs.zipWith Column.rename found) =
      cs.zipWith Column.rename (olds.map (·.label)) := by
  induction cs generalizing olds found with
  | nil => simp
  | cons c cs ih =>
    cases found with
    | nil => cases h
    | cons l found =>
      cases olds with
      | nil => rfl
      | cons d olds =>
        rw [List.zipWith_cons_cons, List.zipWith_cons_cons, List.map_cons, List.zipWith_cons_cons,
          ih (Nat.succ.inj h)]
        rfl

/-- What a method with some name has learned from the columns with some labels in a frame, under
which they are the labels of a sample. -/
def fittedTo (m : Mapping) (name : String) (cols sample : List Label) : Fitted :=
  ⟨paramsOf name cols (m.labels name sample), m.apply sample, returnsInput⟩

theorem run_fittedTo (m : Mapping) (name : String) (sample : List Label) (hsome : cols ≠ [])
    (hselect : X.select cols = .ok ⟨X.index, olds⟩) :
    ((m.fittedTo name cols sample).run X).outcome =
      (m.asked sample ⟨X.index, olds⟩ >>= fun cs =>
        (Frame.mk X.index cs).relabelAs (.ofLabels (m.labels name sample))) >>= fun new =>
          if Numbers.isSameList (m.labels name sample) cols then .ok (replace X cols new.columns)
          else X.drop cols >>= fun rest => .ok (rest.beside new) := by
  have htrue : (Value.ofLabels cols).isTrue = true := by
    cases cols with
    | nil => exact absurd rfl hsome
    | cons l cols => rfl
  have hsame : isSameListing (.ofLabels (m.labels name sample)) (.ofLabels cols) =
      Numbers.isSameList (m.labels name sample) cols := by
    unfold Value.ofLabels isSameListing
    simp only [labels?_ofLabels]
    rfl
  have hcolumns : (paramsOf name cols (m.labels name sample)).getD "columns" .null =
      .ofLabels cols := rfl
  have hnames : (paramsOf name cols (m.labels name sample)).getD "feature_names" .null =
      .ofLabels (m.labels name sample) := rfl
  rw [Fitted.run_outcome, fittedTo, apply_outcome, hcolumns, hnames, htrue, if_neg (by decide),
    hsame, labelsIn_ofLabels, new_paramsOf name _ hselect]
  rcases m.asked sample ⟨X.index, olds⟩ >>= fun cs => _ with e | new
  · rfl
  · rw [Except.bind_ok, Except.bind_ok]
    split
    · rfl
    · cases X.drop cols <;> rfl

/-- What was learned from some columns, applied to a frame that has them. -/
theorem run_placed (m : Mapping) (name : String) (sample : List Label)
    (hX : Frame.hasRepeats X.labels = false) (hcols : (X.lookUp cols).isOk = true)
    (hsome : cols ≠ []) (hbools : cols.all Label.isBool = false) (hstable : Labels.Stable cols)
    (hnames : Labels.Stable (m.labels name sample)) :
    ∃ olds, X.select cols = .ok ⟨X.index, olds⟩ ∧ X.Standing cols olds ∧
      (∀ e, m.asked sample ⟨X.index, olds⟩ = .error e →
        ((m.fittedTo name cols sample).run X).outcome = .error e) ∧
      ∀ cs, m.asked sample ⟨X.index, olds⟩ = .ok cs →
        (cs.length ≠ (m.labels name sample).length →
          ((m.fittedTo name cols sample).run X).outcome = .error (.unusable .value)) ∧
        (cs.length = (m.labels name sample).length →
          ∃ G, ((m.fittedTo name cols sample).run X).outcome = .ok G ∧
            X.Remade cols (m.labels name sample) cs G) := by
  obtain ⟨olds, hselect, hstanding⟩ :=
    Frame.exists_select hX hstable (by rw [hbools, Bool.and_false]) hcols
  have hrun := run_fittedTo m name sample hsome hselect
  refine ⟨olds, hselect, hstanding, fun e he => ?_, fun cs hcs => ?_⟩
  · rw [hrun, he]
    rfl
  rw [hcs, Except.bind_ok, relabelAs_ofLabels X.index] at hrun
  refine ⟨fun hlength => ?_, fun hlength => ?_⟩
  · rw [hrun, if_neg (Ne.symm hlength)]
    rfl
  rw [if_pos hlength.symm, Except.bind_ok] at hrun
  split at hrun
  · next hsame =>
    have hdistinct := not_repeated_columns hsame hstanding hcs
    have hnamed := finds_of_isSameList hsame
    have hlength' : cs.length = (Labels.unified (m.labels name sample)).length :=
      hlength.trans hnames.length_eq
    have hwidth : (cs.zipWith Column.rename (Labels.unified (m.labels name sample))).length =
        cols.length := by
      rw [List.length_zipWith, ← hlength', Nat.min_self, hlength, hnamed.length_eq]
    have hperm := hstanding.replace_perm hX hdistinct hwidth
    rw [zipWith_rename_rename hlength'] at hperm
    exact ⟨_, hrun, Frame.remade_of_perm hX rfl (Frame.others_sublist_replace X cols _)
      (Frame.placed_rename (Label.finds_forall₂_trans hnamed hstanding.finds) hlength) hperm⟩
  · rw [Frame.drop_stable hstable hcols] at hrun
    exact ⟨_, hrun, Frame.remade_of_perm hX rfl (List.sublist_append_left _ _)
      (Frame.placed_rename hnames hlength) .rfl⟩

end Mapping

namespace Method

/-- A transformer that was fitted to some columns touches no others. What it makes of a frame that
has them has the rows of the frame, the other columns as they are and in their order, and a column
of new values under each of its names, whether these take the places of old columns or come last. -/
theorem transformer_remakes (m : Method) (binding : String) (defaults options : Options) (F : Frame)
    (f : Fitted)
    (hfit : ((m.transformer binding defaults options).calculate F).outcome = .ok (some f)) :
    ∃ cols, Columns.resolve F options (some Columns.numeric) = .ok cols ∧
      (cols = [] ∧ (∀ X, (f.run X).outcome = .ok X) ∨
        ∃ parameters sample mapping,
          Options.merge defaults options ["columns", "type"] = .ok parameters ∧
          F.select cols = .ok sample ∧ m.learn parameters sample = .ok mapping ∧
          let names := mapping.labels m.name sample.labels
          ∀ X, Frame.hasRepeats X.labels = false → (X.lookUp cols).isOk = true →
            cols.all Label.isBool = false → Labels.Stable cols → Labels.Stable names →
            ∃ olds, X.select cols = .ok ⟨X.index, olds⟩ ∧ X.Standing cols olds ∧
              (∀ e, mapping.asked sample.labels ⟨X.index, olds⟩ = .error e →
                (f.run X).outcome = .error e) ∧
              ∀ cs, mapping.asked sample.labels ⟨X.index, olds⟩ = .ok cs →
                (cs.length ≠ names.length → (f.run X).outcome = .error (.unusable .value)) ∧
                (cs.length = names.length →
                  ∃ G, (f.run X).outcome = .ok G ∧ X.Remade cols names cs G)) := by
  unfold transformer at hfit
  dsimp only at hfit
  rw [Logged.outcome_lift_bind] at hfit
  obtain ⟨cols, hresolve, hfit⟩ := Except.exists_of_bind hfit
  refine ⟨cols, hresolve, ?_⟩
  by_cases hnone : cols = []
  · subst hnone
    obtain rfl := Option.some.inj (Except.ok.inj hfit)
    exact .inl ⟨rfl, fun X => rfl⟩
  · have hsome : cols.isEmpty = false := List.isEmpty_eq_false_iff.2 hnone
    rw [hsome] at hfit
    simp only [Bool.false_eq_true, if_false, Logged.outcome_lift_bind] at hfit
    obtain ⟨parameters, hmerge, hfit⟩ := Except.exists_of_bind hfit
    obtain ⟨_, -, hfit⟩ := Except.exists_of_bind hfit
    obtain ⟨sample, hsample, hfit⟩ := Except.exists_of_bind hfit
    obtain ⟨mapping, hlearn, hfit⟩ := Except.exists_of_bind hfit
    obtain rfl : mapping.fittedTo m.name cols sample.labels = f :=
      Option.some.inj (Except.ok.inj hfit)
    refine .inr ⟨parameters, sample, mapping, hmerge, hsample, hlearn, ?_⟩
    exact fun X hX hcols hbools hstable hnames =>
      mapping.run_placed m.name sample.labels hX hcols hnone hbools hstable hnames

theorem transformer_remakes_scaled :
    let F : Frame := ⟨rangeIndex 2, [⟨.text "t", .object, [.text "x", .text "y"]⟩,
      ⟨.text "a", .int64, [.int 1, .int 3]⟩, ⟨.text "b", .int64, [.int 5, .int 5]⟩]⟩
    let X : Frame := ⟨[.int 7], [⟨.text "b", .int64, [.int 6]⟩, ⟨.text "u", .int64, [.int 0]⟩,
      ⟨.text "a", .int64, [.int 2]⟩]⟩
    ∃ f G cs,
      ((Scaling.standard.transformer "SklearnTransformerCalculator" [] []).calculate F).outcome =
        .ok (some f) ∧ (f.run X).outcome = .ok G ∧
        X.Remade [.text "a", .text "b"] [.text "a", .text "b"] cs G := by
  intro F X
  have hexists : ∃ f, ((Scaling.standard.transformer "SklearnTransformerCalculator" [] []).calculate
      F).outcome = .ok (some f) := by
    unfold F
    exact ⟨_, rfl⟩
  obtain ⟨f, hfit⟩ := hexists
  obtain ⟨cols, hresolve, hcase⟩ := transformer_remakes _ _ _ _ F f hfit
  have hcols : Columns.resolve F [] (some Columns.numeric) = .ok [.text "a", .text "b"] := rfl
  obtain rfl := Except.ok.inj (hcols.symm.trans hresolve)
  obtain ⟨hnone, -⟩ | ⟨parameters, sample, mapping, hmerge, hsample, hlearn, hremakes⟩ := hcase
  · cases hnone
  obtain rfl := Except.ok.inj hmerge
  obtain rfl := Except.ok.inj hsample
  obtain rfl := Except.ok.inj hlearn
  have htexts : ∀ l ∈ ([.text "a", .text "b"] : List Label), l.isText = true := by decide
  obtain ⟨olds, hselect, -, -, hmade⟩ := hremakes X (by decide) (by decide) (by decide)
    (Labels.stable_of_texts htexts) (Labels.stable_of_texts htexts)
  obtain rfl := (Frame.mk.inj (Except.ok.inj hselect)).2
  obtain ⟨G, hG, hremade⟩ := (hmade _ rfl).2 rfl
  exact ⟨f, G, _, hfit, hG, hremade⟩

/-- Labels that are all truth values choose rows where they are listed, so the new columns are too
short for a frame with such labels. -/
theorem transformer_takes_truth_for_rows :
    let F : Frame := ⟨rangeIndex 2, [⟨.bool true, .int64, [.int 1, .int 2]⟩,
      ⟨.bool false, .int64, [.int 3, .int 4]⟩]⟩
    Frame.hasRepeats F.labels = false ∧
      Columns.resolve F [] (some Columns.numeric) = .ok [.bool true, .bool false] ∧
      (F.lookUp [.bool true, .bool false]).isOk = true ∧
      ∃ f, ((Scaling.standard.transformer "SklearnTransformerCalculator" [] []).calculate F).outcome =
          .ok (some f) ∧ (f.run F).outcome = .error (.unusable .value) := by
  refine ⟨by decide, rfl, rfl, _, rfl, ?_⟩
  rfl

end Method

end ColumnFlow
