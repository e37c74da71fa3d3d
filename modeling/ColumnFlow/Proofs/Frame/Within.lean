import ColumnFlow.Proofs.Frame.Alignment
import ColumnFlow.Proofs.Frame.Concatenation
import ColumnFlow.Proofs.Frame.Numbering
import Mathlib.Data.List.Forall2

/-!
# Frames inside other frames

One frame is within another if it has the same rows and every label of it stands for the same
columns in the other. The other may have its columns in another order, and more columns under other
labels. What is looked up by label is then the same in both, and so is what is computed from it.
Putting frames side by side keeps this, although repeats of labels are renamed: a repeat is renamed
by how many columns with its label come before it, and these are the same in both.
-/
namespace ColumnFlow

namespace Label

variable {l x : Label}

theorem finds_iff_right (h : x.isText = true) : l.finds x = true ↔ l = x := by
  unfold finds
  have hnumber : x.isNotANumber = false := by
    obtain ⟨s, rfl⟩ := Labels.exists_text h
    rfl
  rw [hnumber, Bool.and_false, Bool.or_false, beq_iff_eq]
  exact Labels.key_eq_iff h

theorem finds_iff_left (h : l.isText = true) : l.finds x = true ↔ x = l := by
  unfold finds
  have hnumber : l.isNotANumber = false := by
    obtain ⟨s, rfl⟩ := Labels.exists_text h
    rfl
  rw [hnumber, Bool.false_and, Bool.or_false, beq_iff_eq, eq_comm]
  exact Labels.key_eq_iff h

end Label

section Except

variable {α β ε : Type} {g : α → Except ε β} {f : α → β} {xs : List α} {ys : List β}

theorem Except.exists_of_bind {x : Except ε α} {f : α → Except ε β} {b : β}
    (h : (x >>= f) = .ok b) : ∃ a, x = .ok a ∧ f a = .ok b := by
  cases x with
  | error e => cases h
  | ok a => exact ⟨a, rfl, h⟩

theorem Except.bind_ok (a : α) (f : α → Except ε β) :
    ((Except.ok a : Except ε α) >>= f) = f a := rfl

theorem Except.pure_ok (a : α) : (pure a : Except ε α) = .ok a := rfl

theorem mapM_ok (h : ∀ x ∈ xs, g x = .ok (f x)) : xs.mapM g = .ok (xs.map f) := by
  induction xs with
  | nil => rfl
  | cons x xs ih =>
    rw [List.mapM_cons, h x List.mem_cons_self, ih fun y hy => h y (List.mem_cons_of_mem _ hy)]
    rfl

theorem mapM_error {x : α} {after : List α} {e : ε} (hxs : ∀ a ∈ xs, ∃ b, g a = .ok b)
    (hx : g x = .error e) : (xs ++ x :: after).mapM g = .error e := by
  induction xs with
  | nil =>
    rw [List.nil_append, List.mapM_cons, hx]
    rfl
  | cons a xs ih =>
    rw [List.forall_mem_cons] at hxs
    obtain ⟨b, hb⟩ := hxs.1
    rw [List.cons_append, List.mapM_cons, hb, Except.bind_ok, ih hxs.2]
    rfl

theorem exists_ok_of_mapM (h : xs.mapM g = .ok ys) : ∀ x ∈ xs, ∃ y, g x = .ok y := by
  induction xs generalizing ys with
  | nil => simp
  | cons x xs ih =>
    rw [List.mapM_cons] at h
    obtain ⟨y, hx, h⟩ := Except.exists_of_bind h
    obtain ⟨zs, hxs, -⟩ := Except.exists_of_bind h
    intro z hz
    rcases List.mem_cons.1 hz with rfl | hz
    · exact ⟨y, hx⟩
    · exact ih hxs z hz

theorem forall₂_of_mapM (h : xs.mapM g = .ok ys) : List.Forall₂ (fun x y => g x = .ok y) xs ys := by
  induction xs generalizing ys with
  | nil =>
    obtain rfl := Except.ok.inj h
    exact .nil
  | cons x xs ih =>
    rw [List.mapM_cons] at h
    obtain ⟨y, hx, h⟩ := Except.exists_of_bind h
    obtain ⟨zs, hxs, h⟩ := Except.exists_of_bind h
    obtain rfl := Except.ok.inj h
    exact .cons hx (ih hxs)

theorem mapM_follows {R : β → β → Prop} {f g : α → Except ε β} {bs : List β}
    (h : ∀ x ∈ xs, ∀ b, f x = .ok b → ∃ c, g x = .ok c ∧ R b c) (hbs : xs.mapM f = .ok bs) :
    ∃ cs, xs.mapM g = .ok cs ∧ List.Forall₂ R bs cs := by
  induction xs generalizing bs with
  | nil =>
    obtain rfl := Except.ok.inj hbs
    exact ⟨[], rfl, .nil⟩
  | cons x xs ih =>
    rw [List.mapM_cons] at hbs
    obtain ⟨b, hb, hbs⟩ := Except.exists_of_bind hbs
    obtain ⟨bs, hrest, hbs⟩ := Except.exists_of_bind hbs
    obtain rfl := Except.ok.inj hbs
    obtain ⟨c, hc, hbc⟩ := h x List.mem_cons_self b hb
    obtain ⟨cs, hcs, hall⟩ := ih (fun y hy => h y (List.mem_cons_of_mem _ hy)) hrest
    exact ⟨c :: cs, by rw [List.mapM_cons, hc, hcs]; rfl, .cons hbc hall⟩

end Except

namespace Frame

variable {F F' G G' : Frame} {l : Label} {labels : List Label} {c d : Column}

def under (F : Frame) (l : Label) : List Column := F.columns.filter fun c => l.finds c.label

/-- All labels of the first frame are texts and stand for the same columns in the second. -/
structure Within (F F' : Frame) : Prop where
  index : F'.index = F.index
  texts : ∀ l ∈ F.labels, l.isText = true
  under : ∀ l ∈ F.labels, F'.under l = F.under l

/-- No column that is only in `F'` has a label of `G`. -/
def Spares (F F' G : Frame) : Prop := ∀ l ∈ G.labels, l ∈ F'.labels → l ∈ F.labels

theorem mem_labels : l ∈ F.labels ↔ ∃ c ∈ F.columns, c.label = l := List.mem_map

theorem mem_under (hl : l.isText = true) : c ∈ F.under l ↔ c ∈ F.columns ∧ c.label = l := by
  unfold under
  rw [List.mem_filter, Label.finds_iff_left hl]

theorem under_eq_nil (hl : l.isText = true) : F.under l = [] ↔ l ∉ F.labels := by
  rw [List.eq_nil_iff_forall_not_mem, mem_labels]
  simp only [mem_under hl]
  constructor
  · rintro h ⟨c, hc, rfl⟩
    exact h c ⟨hc, rfl⟩
  · rintro h c ⟨hc, rfl⟩
    exact h ⟨c, hc, rfl⟩

namespace Within

theorem refl (h : ∀ l ∈ F.labels, l.isText = true) : Within F F := ⟨rfl, h, fun _ _ => rfl⟩

theorem rows (h : Within F F') : F'.rows = F.rows := by
  unfold Frame.rows
  rw [h.index]

theorem mem (h : Within F F') (hl : l ∈ F.labels) : l ∈ F'.labels := by
  have htext := h.texts l hl
  by_contra hnot
  have hnil := (under_eq_nil htext).2 hnot
  rw [h.under l hl] at hnil
  exact (under_eq_nil htext).1 hnil hl

theorem spares (h : Within F' F) (G : Frame) : F.Spares F' G := fun _ _ hl => h.mem hl

theorem symm (h : Within F F') (hall : ∀ l ∈ F'.labels, l ∈ F.labels) : Within F' F where
  index := h.index.symm
  texts l hl := h.texts l (hall l hl)
  under l hl := (h.under l (hall l hl)).symm

end Within

/-! Looking columns up. -/

theorem has_iff (htexts : ∀ l ∈ F.labels, l.isText = true) : F.has l = true ↔ l ∈ F.labels := by
  refine ⟨fun h => ?_, has_of_mem⟩
  obtain ⟨x, hx, hfound⟩ := List.any_eq_true.1 h
  have hfinds : ∀ k, Labels.found F.labels k x = true → k = x := by
    intro k hk
    unfold Labels.found at hk
    split at hk
    · exact (Label.finds_iff_right (htexts x hx)).1 hk
    · cases hk
  have heq := hfinds _ hfound
  split at heq
  · rw [← heq] at hx
    exact absurd (htexts _ hx) Bool.false_ne_true
  · rw [heq]
    exact hx

theorem lookUp_eq (htexts : ∀ l ∈ labels, l.isText = true) (hmem : ∀ l ∈ labels, l ∈ F.labels) :
    F.lookUp labels = .ok (labels.map Label.finds) := by
  have hlookups : (Labels.unified labels).map (Labels.found F.labels) = labels.map Label.finds := by
    rw [Labels.unified_of_texts htexts]
    refine List.map_congr_left fun l hl => ?_
    unfold Labels.found
    rw [if_pos (accepts_of_mem (hmem l hl))]
  unfold lookUp
  rw [hlookups, if_pos]
  rw [List.all_map, List.all_eq_true]
  intro l hl
  exact List.any_eq_true.2 ⟨l, hmem l hl, finds_self l⟩

theorem select_eq (htexts : ∀ l ∈ labels, l.isText = true) (hmem : ∀ l ∈ labels, l ∈ F.labels) :
    F.select labels = .ok { F with columns := labels.flatMap F.under } := by
  have hbools : (!labels.isEmpty && labels.all Label.isBool) = false := by
    cases labels with
    | nil => rfl
    | cons l labels =>
      have hbool : l.isBool = false := by
        obtain ⟨s, rfl⟩ := Labels.exists_text (htexts l List.mem_cons_self)
        rfl
      rw [List.all_cons, hbool, Bool.false_and, Bool.and_false]
  unfold select
  rw [hbools, if_neg Bool.false_ne_true, lookUp_eq htexts hmem]
  change Except.ok _ = _
  rw [List.flatMap_map]
  rfl

theorem texts_of_select (htexts : ∀ l ∈ labels, l.isText = true)
    (hmem : ∀ l ∈ labels, l ∈ F.labels) (h : F.select labels = .ok G) :
    ∀ l ∈ G.labels, l.isText = true := by
  rw [select_eq htexts hmem] at h
  obtain rfl := Except.ok.inj h
  intro l hl
  obtain ⟨c, hc, rfl⟩ := mem_labels.1 hl
  obtain ⟨k, hk, hunder⟩ := List.mem_flatMap.1 hc
  rw [((mem_under (htexts k hk)).1 hunder).2]
  exact htexts k hk

def keepLabels (F : Frame) (p : Label → Bool) : Frame :=
  { F with columns := F.columns.filter fun c => p c.label }

theorem drop_eq (htexts : ∀ l ∈ labels, l.isText = true) (hmem : ∀ l ∈ labels, l ∈ F.labels) :
    F.drop labels = .ok (F.keepLabels fun x => !labels.any fun l => l.finds x) := by
  unfold drop
  rw [lookUp_eq htexts hmem]
  change Except.ok _ = _
  simp only [List.any_map]
  rfl

theorem Within.select (h : Within F F') (hmem : ∀ l ∈ labels, l ∈ F.labels) :
    F'.select labels = F.select labels := by
  have htexts : ∀ l ∈ labels, l.isText = true := fun l hl => h.texts l (hmem l hl)
  rw [select_eq htexts hmem, select_eq htexts fun l hl => h.mem (hmem l hl), h.index]
  congr 2
  exact List.flatMap_congr fun l hl => h.under l (hmem l hl)

/-! Changing frames. -/

def mapColumns (F : Frame) (f : Column → Column) : Frame := { F with columns := F.columns.map f }

theorem labels_mapColumns {f : Column → Column} (hf : ∀ c, (f c).label = c.label) :
    (F.mapColumns f).labels = F.labels := by
  unfold mapColumns labels
  rw [List.map_map]
  exact List.map_congr_left fun c _ => hf c

theorem under_mapColumns {f : Column → Column} (hf : ∀ c, (f c).label = c.label) :
    (F.mapColumns f).under l = (F.under l).map f := by
  unfold mapColumns under
  rw [List.filter_map]
  congr 1
  exact List.filter_congr fun c _ => by rw [Function.comp_apply, hf]

theorem mem_labels_keepLabels {p : Label → Bool} :
    l ∈ (F.keepLabels p).labels ↔ l ∈ F.labels ∧ p l = true := by
  simp only [mem_labels, keepLabels, List.mem_filter]
  constructor
  · rintro ⟨c, ⟨hc, hp⟩, rfl⟩
    exact ⟨⟨c, hc, rfl⟩, hp⟩
  · rintro ⟨⟨c, hc, rfl⟩, hp⟩
    exact ⟨c, ⟨hc, hp⟩, rfl⟩

theorem under_keepLabels {p : Label → Bool} (hl : l.isText = true) (hp : p l = true) :
    (F.keepLabels p).under l = F.under l := by
  unfold keepLabels under
  rw [List.filter_filter]
  refine List.filter_congr fun c _ => ?_
  cases hfinds : l.finds c.label with
  | false => rfl
  | true =>
    rw [(Label.finds_iff_left hl).1 hfinds, hp]
    rfl

theorem labels_beside : (F.beside G).labels = F.labels ++ G.labels := List.map_append

theorem under_beside : (F.beside G).under l = F.under l ++ G.under l := List.filter_append ..

namespace Within

theorem mapColumns (h : Within F F') {f : Column → Column} (hf : ∀ c, (f c).label = c.label) :
    Within (F.mapColumns f) (F'.mapColumns f) where
  index := h.index
  texts l hl := h.texts l (by rwa [labels_mapColumns hf] at hl)
  under l hl := by
    rw [labels_mapColumns hf] at hl
    rw [under_mapColumns hf, under_mapColumns hf, h.under l hl]

theorem keepLabels (h : Within F F') (p : Label → Bool) :
    Within (F.keepLabels p) (F'.keepLabels p) where
  index := h.index
  texts l hl := h.texts l (mem_labels_keepLabels.1 hl).1
  under l hl := by
    obtain ⟨hmem, hp⟩ := mem_labels_keepLabels.1 hl
    have htext := h.texts l hmem
    rw [under_keepLabels htext hp, under_keepLabels htext hp, h.under l hmem]

/-- The same new columns may be put beside both frames if they meet no other columns. -/
theorem beside (h : Within F F') (htexts : ∀ l ∈ G.labels, l.isText = true)
    (hspares : F.Spares F' G) :
    Within (F.beside G) (F'.beside G) where
  index := h.index
  texts l hl := by
    rw [labels_beside, List.mem_append] at hl
    exact hl.elim (h.texts l) (htexts l)
  under l hl := by
    rw [under_beside, under_beside]
    by_cases hmem : l ∈ F.labels
    · rw [h.under l hmem]
    · rw [labels_beside, List.mem_append] at hl
      have hnew := hl.resolve_left hmem
      have htext := htexts l hnew
      rw [(under_eq_nil htext).2 hmem, (under_eq_nil htext).2 (mt (hspares l hnew) hmem)]

/-- What can be done to all columns of the first frame, and leaves others alone, can be done to all
columns of the second. -/
theorem mapM (h : Within F F') {g : Column → Except Failure Column} {cs : List Column}
    (hlabel : ∀ c d, g c = .ok d → d.label = c.label)
    (hother : ∀ c ∈ F'.columns, c.label ∉ F.labels → g c = .ok c)
    (hcs : F.columns.mapM g = .ok cs) :
    ∃ cs', F'.columns.mapM g = .ok cs' ∧
      Within { F with columns := cs } { F' with columns := cs' } := by
  -- Where `g` succeeds it is `f`, and `f` changes columns in their places.
  let f (c : Column) : Column := ((g c).toOption).getD c
  have hok : ∀ c, (∃ d, g c = .ok d) → g c = .ok (f c) := by
    rintro c ⟨d, hd⟩
    simp only [f, hd]
    rfl
  have hf : ∀ c, (f c).label = c.label := by
    intro c
    cases hc : g c with
    | error e => simp only [f, hc]; rfl
    | ok d => simp only [f, hc]; exact hlabel c d hc
  have hfirst : ∀ c ∈ F.columns, g c = .ok (f c) := fun c hc => hok c (exists_ok_of_mapM hcs c hc)
  have hsecond : ∀ c ∈ F'.columns, g c = .ok (f c) := by
    intro c hc
    by_cases hmem : c.label ∈ F.labels
    · have htext := h.texts c.label hmem
      have hunder : c ∈ F'.under c.label := (mem_under htext).2 ⟨hc, rfl⟩
      rw [h.under c.label hmem] at hunder
      exact hfirst c ((mem_under htext).1 hunder).1
    · exact hok c ⟨c, hother c hc hmem⟩
  obtain rfl : cs = F.columns.map f := Except.ok.inj (hcs.symm.trans (mapM_ok hfirst))
  exact ⟨F'.columns.map f, mapM_ok hsecond, h.mapColumns hf⟩

end Within

/-! Columns in another order, and further columns. -/

section Columns

variable {X X' : Frame} {extra : List Column}

theorem length_under_le (hdistinct : X.labels.Nodup) {l : Label} (hl : l.isText = true) :
    (X.under l).length ≤ 1 := by
  have hpairs : (X.under l).Pairwise fun c d => c.label ≠ d.label :=
    (List.pairwise_map.1 hdistinct).filter _
  match hunder : X.under l with
  | [] => exact Nat.zero_le 1
  | [c] => exact Nat.le_refl 1
  | c :: d :: rest =>
    have hc : c ∈ X.under l := by simp [hunder]
    have hd : d ∈ X.under l := by simp [hunder]
    rw [hunder] at hpairs
    refine absurd ?_ (List.rel_of_pairwise_cons hpairs List.mem_cons_self)
    rw [((mem_under hl).1 hc).2, ((mem_under hl).1 hd).2]

theorem Within.of_perm (htexts : ∀ l ∈ X.labels, l.isText = true) (hdistinct : X.labels.Nodup)
    (hindex : X'.index = X.index) (hcolumns : X'.columns.Perm X.columns) : X.Within X' where
  index := hindex
  texts := htexts
  under l hl := by
    have hone := length_under_le hdistinct (htexts l hl)
    have hperm : (X'.under l).Perm (X.under l) := hcolumns.filter _
    match hunder : X.under l with
    | [] =>
      rw [hunder] at hperm
      exact hperm.eq_nil
    | [c] =>
      rw [hunder] at hperm
      exact List.perm_singleton.1 hperm
    | c :: d :: rest =>
      rw [hunder] at hone
      simp at hone

theorem Within.of_append (htexts : ∀ l ∈ X.labels, l.isText = true)
    (hextra : ∀ c ∈ extra, c.label ∉ X.labels) : X.Within ⟨X.index, X.columns ++ extra⟩ where
  index := rfl
  texts := htexts
  under l hl := by
    have hnone : Frame.under ⟨X.index, extra⟩ l = [] :=
      List.filter_eq_nil_iff.2 fun c hc hfinds => by
        rw [Label.finds_iff_left (htexts l hl)] at hfinds
        exact hextra c hc (hfinds ▸ hl)
    refine (under_beside (F := X) (G := ⟨X.index, extra⟩)).trans ?_
    rw [hnone, List.append_nil]

end Columns

end Frame
end ColumnFlow
