import ColumnFlow.Proofs.Frame.Within

/-!
# Joining frames that are within others

If each of some frames is within another one, the join of the first is within the join of the
others, as long as no column that only the others have is written like a column of the join. Then
the same texts are free for the repeats of a label in both; a repeat is called by the number of
columns with its label before it, and these are the same in both, whatever stands between them.
-/
namespace ColumnFlow

namespace Labels

variable {l t : Label} {all names : List Label} {m : Memo} {c : Nat} {cs : List Column} {d : Column}

/-- Of the columns with a label, each is called by the number of those before it. -/
theorem zip_uniqueFrom (hl : l.isText = true) (hmem : l ∈ all) (hcs : ∀ d ∈ cs, d.label ∈ all)
    (halone : ∀ x ∈ all, x.plain = l.plain → x = l) (h : m.Knows all l c) :
    ((cs.zip (uniqueFrom all m (cs.map (·.label)))).filter fun p => l.finds p.1.label) =
      ((cs.filter fun d => l.finds d.label).zipIdx c).map fun p => (p.1, given all l p.2) := by
  -- `c` counts the columns with the label that the induction has passed.
  induction cs generalizing m c with
  | nil => rfl
  | cons d cs ih =>
    have hrest : ∀ d ∈ cs, d.label ∈ all := fun e he => hcs e (List.mem_cons_of_mem _ he)
    rw [List.map_cons, uniqueFrom, List.zip_cons_cons]
    by_cases heq : d.label = l
    · have hfinds : l.finds d.label = true := (Label.finds_iff_left hl).2 heq
      obtain ⟨hname, hknows⟩ := next_of_knows hl hmem h
      simp only [List.filter_cons, hfinds, if_true, List.zipIdx_cons, List.map_cons]
      rw [heq, hname, ih hrest hknows]
    · have hfinds : l.finds d.label = false :=
        Bool.eq_false_iff.2 (mt (Label.finds_iff_left hl).1 heq)
      have hd := hcs d List.mem_cons_self
      simp only [List.filter_cons, hfinds, Bool.false_eq_true, if_false]
      exact ih hrest (next_of_ne hl hmem hd heq (halone _ hd) h)

theorem mem_zip_makeUnique (hl : l.isText = true) (hmem : l ∈ cs.map (·.label))
    (halone : ∀ x ∈ cs.map (·.label), x.plain = l.plain → x = l) :
    (d.label = l ∧ (d, t) ∈ cs.zip (makeUnique (cs.map (·.label)))) ↔
      ∃ k, (cs.filter fun d => l.finds d.label)[k]? = some d ∧
        t = given (cs.map (·.label)) l k := by
  have hzip := zip_uniqueFrom hl hmem (fun d hd => List.mem_map_of_mem hd) halone
    (Memo.knows_nothing _ l)
  have hfilter : (d.label = l ∧ (d, t) ∈ cs.zip (makeUnique (cs.map (·.label)))) ↔
      (d, t) ∈ (cs.zip (makeUnique (cs.map (·.label)))).filter fun p => l.finds p.1.label := by
    rw [List.mem_filter, Label.finds_iff_left hl, and_comm]
  rw [hfilter]
  unfold makeUnique
  rw [hzip, List.mem_map]
  constructor
  · rintro ⟨⟨e, k⟩, hk, heq⟩
    obtain ⟨rfl, rfl⟩ := Prod.mk.inj heq
    exact ⟨k, List.mk_mem_zipIdx_iff_getElem?.1 hk, rfl⟩
  · rintro ⟨k, hk, rfl⟩
    exact ⟨(d, k), List.mk_mem_zipIdx_iff_getElem?.2 hk, rfl⟩

theorem unified_of_text (ht : t.isText = true) (hmem : t ∈ names) :
    ∃ f : Label → Label, unified names = names.map f ∧
      ∀ n u, u.isText = true → (f n = u ↔ n = u) := by
  have hkinds : (names.all fun l => l.isNumber || l.isMissing) = false := by
    obtain ⟨s, rfl⟩ := exists_text ht
    exact List.all_eq_false.2 ⟨.text s, hmem, Bool.false_ne_true⟩
  unfold unified
  rw [hkinds, if_neg Bool.false_ne_true]
  refine ⟨_, rfl, fun n u hu => ?_⟩
  obtain ⟨s, rfl⟩ := exists_text hu
  split
  case isTrue hmissing =>
    constructor
    · intro h
      cases h
    · rintro rfl
      simp [Scalar.isNotANumber, Label.isNull] at hmissing
  case isFalse => exact Iff.rfl

theorem joined_of_text (ht : t.isText = true) (hmem : t ∈ names) : joined names = names := by
  unfold joined
  have hnumbers : names.all Label.isNumber = false := by
    obtain ⟨s, rfl⟩ := exists_text ht
    exact List.all_eq_false.2 ⟨.text s, hmem, Bool.false_ne_true⟩
  rw [hnumbers, if_neg Bool.false_ne_true]

end Labels

namespace Frame

variable {F F' G G' X X' : Frame} {l t : Label} {cs : List Column} {names : List Label} {d : Column}
  {outputs outputs' : List Frame}

theorem filter_zipWith_rename (ht : t.isText = true)
    (hone : names.Pairwise fun a b => ¬(a = t ∧ b = t)) (h : (d, t) ∈ cs.zip names) :
    (cs.zipWith Column.rename names).filter (fun c => t.finds c.label) = [d.rename t] := by
  induction cs generalizing names with
  | nil => cases h
  | cons c cs ih =>
    cases names with
    | nil => cases h
    | cons n names =>
      obtain ⟨hhead, htail⟩ := List.pairwise_cons.1 hone
      rw [List.zipWith_cons_cons]
      rcases List.mem_cons.1 h with heq | hrest
      · obtain ⟨rfl, rfl⟩ := Prod.mk.inj heq
        have hnone : (cs.zipWith Column.rename names).filter (fun c => t.finds c.label) = [] := by
          refine List.filter_eq_nil_iff.2 fun e he hfinds => ?_
          obtain ⟨a, n, hn, rfl⟩ : ∃ (a : Column) (n : Label), n ∈ names ∧ a.rename n = e := by
            rw [← List.map_uncurry_zip_eq_zipWith] at he
            obtain ⟨⟨a, n⟩, hp, heq⟩ := List.mem_map.1 he
            exact ⟨a, n, (List.of_mem_zip hp).2, heq⟩
          exact hhead n hn ⟨rfl, (Label.finds_iff_left ht).1 hfinds⟩
        have hfinds : t.finds (d.rename t).label = true := finds_self t
        simp only [List.filter_cons, hfinds, if_true, hnone]
      · have hne : n ≠ t := fun heq => hhead t (List.of_mem_zip hrest).2 ⟨heq, rfl⟩
        have hfinds : t.finds (c.rename n).label = false :=
          Bool.eq_false_iff.2 (mt (Label.finds_iff_left ht).1 hne)
        simp only [List.filter_cons, hfinds, Bool.false_eq_true, if_false]
        exact ih htail hrest

def columnsOf (outputs : List Frame) : List Column := outputs.flatMap (·.columns)

/-- Whatever is given a name that is a text is all that stands under it in the end. -/
theorem under_sideBySide (hl : l.isText = true) (hmem : l ∈ (columnsOf outputs).map (·.label))
    (ht : t.isText = true)
    (h : (d, t) ∈ (columnsOf outputs).zip (Labels.makeUnique ((columnsOf outputs).map (·.label)))) :
    (sideBySide outputs X).under t = [d.rename t] := by
  unfold sideBySide relabel under
  dsimp only
  change ((columnsOf outputs).zipWith Column.rename (Labels.unified (Labels.makeUnique
    (Labels.joined ((columnsOf outputs).map (·.label)))))).filter _ = _
  rw [Labels.joined_of_text hl hmem]
  obtain ⟨f, hunified, hf⟩ := Labels.unified_of_text ht (List.of_mem_zip h).2
  have hft : f t = t := (hf t t ht).2 rfl
  rw [hunified]
  refine filter_zipWith_rename ht ?_ ?_
  · refine List.pairwise_map.2 ((Labels.makeUnique_pairwise _).imp fun {a b} hab hboth => ?_)
    rw [(hf a t ht).1 hboth.1, (hf b t ht).1 hboth.2, Labels.same_self_of_isText ht] at hab
    cases hab
  · rw [List.zip_map_right]
    exact List.mem_map.2 ⟨(d, t), h, by rw [Prod.map_apply, hft]; rfl⟩

/-- An extra column of `A'` that `A` does not have is written like a column of `B`. -/
def Meets (A A' B : Frame) : Prop :=
  ∃ x ∈ A'.labels, x ∉ A.labels ∧ ∃ l ∈ B.labels, l.plain = x.plain

theorem spares_of_not_meets {B : Frame} (h : ¬ F.Meets F' B) : F.Spares F' B := by
  intro l hl hl'
  by_contra hnot
  exact h ⟨l, hl', hnot, l, hl, rfl⟩

theorem Within.not_meets {A A' : Frame} (h : A'.Within A) (B : Frame) : ¬ A.Meets A' B := by
  rintro ⟨l, hl, hnot, -⟩
  exact hnot (h.mem hl)

section Pairs

variable {B : Frame} (h : List.Forall₂ (fun A A' => Within A A' ∧ ¬ A.Meets A' B) outputs outputs')
include h

theorem mem_of_pairs {x : Label} (hx : x ∈ (columnsOf outputs').map (·.label)) (hl : l ∈ B.labels)
    (hplain : l.plain = x.plain) : x ∈ (columnsOf outputs).map (·.label) := by
  induction h with
  | nil => exact hx
  | @cons A A' outputs outputs' hfirst _ ih =>
    simp only [columnsOf, List.flatMap_cons, List.map_append, List.mem_append] at hx ⊢
    rcases hx with hx | hx
    · by_contra hnot
      exact hfirst.2 ⟨x, hx, fun hA => hnot (.inl hA), l, hl, hplain⟩
    · exact .inr (ih hx)

theorem filter_of_pairs (ht : l.isText = true) (hl : l ∈ B.labels) :
    ((columnsOf outputs').filter fun c => l.finds c.label) =
      (columnsOf outputs).filter fun c => l.finds c.label := by
  induction h with
  | nil => rfl
  | @cons A A' outputs outputs' hfirst _ ih =>
    have hunder : A'.under l = A.under l := by
      by_cases hmem : l ∈ A.labels
      · exact hfirst.1.under l hmem
      · have hnot : l ∉ A'.labels := fun hA' => hmem (spares_of_not_meets hfirst.2 l hl hA')
        rw [(under_eq_nil ht).2 hmem, (under_eq_nil ht).2 hnot]
    simp only [columnsOf, List.flatMap_cons, List.filter_append] at ih ⊢
    exact congrArg₂ _ hunder ih

theorem texts_of_pairs : ∀ l ∈ (columnsOf outputs).map (·.label), l.isText = true := by
  induction h with
  | nil => simp [columnsOf]
  | @cons A A' outputs outputs' hfirst _ ih =>
    intro l hl
    simp only [columnsOf, List.flatMap_cons, List.map_append, List.mem_append] at hl
    exact hl.elim (hfirst.1.texts l) (ih l)

end Pairs

theorem labels_sideBySide (htexts : ∀ l ∈ (columnsOf outputs).map (·.label), l.isText = true) :
    (sideBySide outputs X).labels = Labels.makeUnique ((columnsOf outputs).map (·.label)) := by
  refine (labels_relabel (length_labels_sideBySide outputs)).trans ?_
  change Labels.unified (Labels.makeUnique (Labels.joined ((columnsOf outputs).map (·.label)))) = _
  rw [Labels.joined_of_texts htexts, Labels.unified_of_texts (Labels.isText_makeUnique htexts)]

theorem mem_labels_iff (hl : l.isText = true) :
    l ∈ cs.map (·.label) ↔ ∃ c, c ∈ cs.filter fun c => l.finds c.label := by
  simp only [List.mem_map, List.mem_filter, Label.finds_iff_left hl]

section Names

variable (htexts : ∀ l ∈ (columnsOf outputs).map (·.label), l.isText = true)
include htexts

theorem alone_of_texts (hl : l ∈ (columnsOf outputs).map (·.label)) :
    ∀ x ∈ (columnsOf outputs).map (·.label), x.plain = l.plain → x = l :=
  fun x hx => Labels.plain_inj (htexts x hx) (htexts l hl)

theorem given_mem {k : Nat} (hl : l ∈ (columnsOf outputs).map (·.label))
    (hk : ((columnsOf outputs).filter fun c => l.finds c.label)[k]? = some d) :
    Labels.given ((columnsOf outputs).map (·.label)) l k ∈ (sideBySide outputs X).labels := by
  have hzip := (Labels.mem_zip_makeUnique (htexts l hl) hl (alone_of_texts htexts hl)).2
    ⟨k, hk, rfl⟩
  rw [labels_sideBySide htexts]
  exact (List.of_mem_zip hzip.2).2

theorem kept_mem (hl : l ∈ (columnsOf outputs).map (·.label)) :
    l ∈ (sideBySide outputs X).labels := by
  obtain ⟨c, hc⟩ := (mem_labels_iff (htexts l hl)).1 hl
  exact given_mem htexts hl (List.getElem?_eq_getElem (List.length_pos_of_mem hc))

theorem exists_given (ht : t ∈ (sideBySide outputs X).labels) :
    ∃ d k, d.label ∈ (columnsOf outputs).map (·.label) ∧
      (d, t) ∈ (columnsOf outputs).zip (Labels.makeUnique ((columnsOf outputs).map (·.label))) ∧
      ((columnsOf outputs).filter fun c => d.label.finds c.label)[k]? = some d ∧
      t = Labels.given ((columnsOf outputs).map (·.label)) d.label k := by
  rw [labels_sideBySide htexts] at ht
  have hlength := Labels.length_makeUnique ((columnsOf outputs).map (·.label))
  rw [List.length_map] at hlength
  rw [← List.map_snd_zip (Nat.le_of_eq hlength)] at ht
  obtain ⟨⟨d, t⟩, hd, rfl⟩ := List.mem_map.1 ht
  have hl : d.label ∈ (columnsOf outputs).map (·.label) :=
    List.mem_map_of_mem (List.of_mem_zip hd).1
  obtain ⟨k, hk, heq⟩ := (Labels.mem_zip_makeUnique (htexts _ hl) hl (alone_of_texts htexts hl)).1
    ⟨rfl, hd⟩
  exact ⟨d, k, hl, hd, hk, heq⟩

end Names

section Joined

variable (h : List.Forall₂ (fun A A' => Within A A' ∧ ¬ A.Meets A' (sideBySide outputs X))
  outputs outputs')
include h

theorem filter_joined (hl : l ∈ (columnsOf outputs).map (·.label)) :
    ((columnsOf outputs').filter fun c => l.finds c.label) =
      (columnsOf outputs).filter fun c => l.finds c.label :=
  filter_of_pairs h (texts_of_pairs h l hl) (kept_mem (texts_of_pairs h) hl)

theorem mem_joined (hl : l ∈ (columnsOf outputs).map (·.label)) :
    l ∈ (columnsOf outputs').map (·.label) := by
  have htext := texts_of_pairs h l hl
  rw [mem_labels_iff htext, filter_joined h hl, ← mem_labels_iff htext]
  exact hl

/-- More columns do not change the names of those that were there. -/
theorem given_joined {k : Nat} (hl : l ∈ (columnsOf outputs).map (·.label))
    (hk : ((columnsOf outputs).filter fun c => l.finds c.label)[k]? = some d) :
    Labels.given ((columnsOf outputs').map (·.label)) l k =
      Labels.given ((columnsOf outputs).map (·.label)) l k := by
  cases k with
  | zero => rfl
  | succ k =>
    refine congrArg (Labels.suffixed l)
      (Labels.spare_eq (fun c => mem_joined h) fun j hj hmem => ?_)
    -- A number that is used in the join is not taken by any other column.
    have hlt := Nat.lt_of_le_of_lt hj (List.getElem?_eq_some_iff.1 hk).1
    have hused := given_mem (X := X) (texts_of_pairs h) hl (List.getElem?_eq_getElem hlt)
    exact Labels.spare_free _ _ j (mem_of_pairs h hmem hused rfl)

/-- Frames within others are joined to a frame within what the others are joined to, if no extra
column is written like a column of the join. -/
theorem within_sideBySide (hindex : X'.index = X.index) :
    Within (sideBySide outputs X) (sideBySide outputs' X') where
  index := hindex
  texts := by
    rw [labels_sideBySide (texts_of_pairs h)]
    exact Labels.isText_makeUnique (texts_of_pairs h)
  under t ht := by
    obtain ⟨d, k, hl, hd, hk, rfl⟩ := exists_given (texts_of_pairs h) ht
    have htext := texts_of_pairs h _ hl
    have hname : (Labels.given ((columnsOf outputs).map (·.label)) d.label k).isText = true :=
      Labels.isText_given htext k
    have halone : ∀ x ∈ (columnsOf outputs').map (·.label), x.plain = d.label.plain →
        x = d.label := by
      intro x hx hplain
      have hmem := mem_of_pairs h hx (kept_mem (texts_of_pairs h) hl) hplain.symm
      exact Labels.plain_inj (texts_of_pairs h x hmem) htext hplain
    have hd' := (Labels.mem_zip_makeUnique htext (mem_joined h hl) halone).2
      ⟨k, by rw [filter_joined h hl]; exact hk, (given_joined h hl hk).symm⟩
    rw [under_sideBySide htext (mem_joined h hl) hname hd'.2, under_sideBySide htext hl hname hd]

end Joined

end Frame
end ColumnFlow
