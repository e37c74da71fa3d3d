import ColumnFlow.CrossValidation.Run
import ColumnFlow.Proofs.Split.Classes
import ColumnFlow.Proofs.Split.Dealing
import Mathlib.Algebra.Order.Ring.Rat
import Mathlib.Data.Rat.Cast.Defs

/-!
# Splitting

The folds of a validator split the rows of the features, whatever the features and the target are.
-/
namespace ColumnFlow

/-- How many of the rows that a fold tests have some label. -/
def Fold.countOf (y : Series) (c : Value) (f : Fold) : Nat :=
  f.test.countP fun r => y.cells[r]?.any fun v => v.sameLabel c

/-- Some class has rows for all folds. -/
def Classes.LargeEnough (y : Series) (k : Nat) : Prop :=
  ∃ ks, classKeys y = .ok ks ∧ ∃ c, c < (codes ks).2 ∧ k ≤ (codes ks).1.count c

namespace FoldPlan

variable {p : FoldPlan} {n : Nat} {y : Series} {folds : List Fold}

/-- Without classes, rows are cut in some order, which is their own one if there is no seed. -/
theorem plainFolds_ok (h : p.plainFolds n = .ok folds) :
    ∃ order : List Nat, folds = Fold.ofOrder n p.count order ∧ order.Perm (List.range n) ∧
      (p.seed = none → order = List.range n) := by
  obtain ⟨source, hsource, h⟩ := Except.exists_of_bind h
  cases source with
  | none => exact ⟨List.range n, (Except.ok.inj h).symm, .refl _, fun _ => rfl⟩
  | some t =>
    refine ⟨_, (Except.ok.inj h).symm, t.permutation_perm n, fun hseed => ?_⟩
    rw [source, hseed] at hsource
    cases hsource

theorem stratifiedFolds_ok (hp : 0 < p.count) (h : p.stratifiedFolds y = .ok folds) :
    ∃ ks hands, Classes.classKeys y = .ok ks ∧ Fold.Dealt (Classes.codes ks).1 p.count hands ∧
      folds = Fold.ofHands (Classes.codes ks).1 p.count hands := by
  obtain ⟨source, -, h⟩ := Except.exists_of_bind h
  obtain ⟨ks, hks, h⟩ := Except.exists_of_bind h
  refine ⟨ks, _, hks, Fold.dealAll_dealt hp (Classes.code_lt ks) source, ?_⟩
  cases hcodes : Classes.codes ks with
  | mk codes classes =>
    simp only [hcodes] at h
    split at h
    · cases h
    · exact (Except.ok.inj h).symm

theorem folds_partition (hp : 0 < p.count) (h : p.folds y = .ok folds) :
    Fold.Partition y.rows p.count folds := by
  unfold FoldPlan.folds at h
  split at h
  · obtain ⟨ks, hands, hks, hdealt, rfl⟩ := stratifiedFolds_ok hp h
    have hpartition := hdealt.partition hp
    rwa [Classes.length_codes, Classes.length_classKeys hks] at hpartition
  · obtain ⟨order, rfl, horder, -⟩ := plainFolds_ok h
    exact Fold.ofOrder_partition hp horder

theorem folds_countOf (hp : 0 < p.count) (hstratified : p.stratified = true)
    (h : p.folds y = .ok folds) (c : Value) :
    ∀ f ∈ folds, ∀ g ∈ folds, f.countOf y c ≤ g.countOf y c + 1 := by
  rw [FoldPlan.folds, if_pos hstratified] at h
  obtain ⟨ks, hands, hks, hdealt, rfl⟩ := stratifiedFolds_ok hp h
  obtain ⟨code, hcode⟩ := Classes.exists_code hks c
  intro f hf g hg
  have hquota : ∀ f ∈ Fold.ofHands (Classes.codes ks).1 p.count hands,
      f.countOf y c = Fold.quota (Classes.codes ks).1 p.count f.index code := by
    intro f hf
    rw [← hdealt.countP_test hf]
    exact List.countP_congr fun r _ => by rw [hcode r]
  rw [hquota f hf, hquota g hg]
  exact Fold.quota_le _ _ (Fold.exists_number hf).1 (Fold.exists_number hg).1

/-- Without classes and without a seed, the folds test consecutive rows, the larger ones first. -/
theorem folds_consecutive (hp : 0 < p.count) (hstratified : p.stratified = false)
    (hseed : p.seed = none) (h : p.folds y = .ok folds) :
    folds.flatMap Fold.test = List.range y.rows ∧
      (folds.map fun f => f.test.length).Pairwise (· ≥ ·) := by
  rw [FoldPlan.folds, if_neg (by rw [hstratified]; decide)] at h
  obtain ⟨order, rfl, -, horder⟩ := plainFolds_ok h
  rw [horder hseed]
  exact Fold.ofOrder_range hp

theorem exists_folds {source : Option Draw.Twister} (hsource : p.source = .ok source)
    (hclasses : p.stratified = true → Classes.LargeEnough y p.count) :
    ∃ folds, p.folds y = .ok folds := by
  unfold FoldPlan.folds
  split
  · obtain ⟨ks, hks, c, hc, hcount⟩ := hclasses ‹_›
    have hsome : ((List.range (Classes.codes ks).2).all fun c =>
        decide ((Classes.codes ks).1.count c < p.count)) = false := by
      rw [List.all_eq_false]
      exact ⟨c, List.mem_range.2 hc, by simpa using hcount⟩
    rw [stratifiedFolds, hsource, Except.bind_ok, hks, Except.bind_ok]
    dsimp only
    rw [hsome]
    exact ⟨_, rfl⟩
  · rw [plainFolds, hsource, Except.bind_ok]
    cases source with
    | none => exact ⟨_, rfl⟩
    | some t => exact ⟨_, rfl⟩

end FoldPlan

namespace Validator

variable {v : Validator} {X : Frame} {y : Series} {k : Nat} {folds : List Fold}

theorem plan_ok {p : FoldPlan} (hfolds : v.folds = .int k) (h : v.plan = .ok p) :
    p.count = k ∧ p.stratified = v.isStratified ∧ (v.shuffle = .bool false → p.seed = none) := by
  unfold plan at h
  rw [hfolds] at h
  split at h
  · rename_i hfolds hshuffle
    cases hfolds
    cases h
    exact ⟨Int.toNat_natCast k, rfl, fun _ => rfl⟩
  · rename_i hfolds hshuffle
    cases hfolds
    split at h
    · cases h
      refine ⟨Int.toNat_natCast k, rfl, fun h => ?_⟩
      rw [hshuffle] at h
      cases h
    · cases h
  · cases h
  · cases h

/-- Rows keep their order, or there is a seed for another one. -/
def IsSeeded (v : Validator) : Prop :=
  v.shuffle = .bool false ∨
    v.shuffle = .bool true ∧ ∃ seed, Domain.whole? v.seed = some seed ∧ Draw.isSeed seed = true

theorem IsSeeded.exists_plan (h : v.IsSeeded) (hfolds : v.folds = .int k) : ∃ p source,
    v.plan = .ok p ∧ p.count = k ∧ p.stratified = v.isStratified ∧ p.source = .ok source := by
  rcases h with hshuffle | ⟨hshuffle, seed, hseed, hrange⟩
  · refine ⟨⟨k, v.isStratified, none⟩, none, ?_, rfl, rfl, rfl⟩
    rw [plan, hfolds, hshuffle]
    rfl
  · refine ⟨⟨k, v.isStratified, some seed⟩, some (.ofSeed seed.toNat), ?_, rfl, rfl, if_pos hrange⟩
    rw [plan, hfolds, hshuffle]
    simp only [hseed]
    rfl

theorem exists_split (hfolds : v.folds = .int k) (hk : k ≤ X.rows) (hrows : y.rows = X.rows)
    (hseeded : v.IsSeeded) (hclasses : v.isStratified = true → Classes.LargeEnough y k) :
    ∃ folds, v.split X y = .ok folds := by
  obtain ⟨p, source, hp, hcount, hstratified, hsource⟩ := hseeded.exists_plan hfolds
  obtain ⟨folds, hsplit⟩ := p.exists_folds (y := y) hsource fun h => by
    rw [hcount]
    exact hclasses (hstratified ▸ h)
  have hexact : Parameters.exactIn v.folds = .ok (.finite (k : Int)) := by
    rw [hfolds]
    rfl
  have hless : (Decimal.Exact.finite X.rows).less (.finite ((k : Int) : Rat)) = false :=
    decide_eq_false (by exact_mod_cast Nat.not_lt.2 hk)
  refine ⟨folds, ?_⟩
  rw [split, hexact, Except.bind_ok, hless]
  simp only [Bool.false_eq_true, if_false, hp, Except.bind_ok, hrows, ne_eq, not_true_eq_false]
  exact hsplit

theorem split_of_lt (hfolds : v.folds = .int k) (h : X.rows < k) :
    v.split X y = .error (.mismatch (.tooManyFolds X.rows v.folds)) := by
  have hexact : Parameters.exactIn v.folds = .ok (.finite (k : Int)) := by
    rw [hfolds]
    rfl
  have hless : (Decimal.Exact.finite X.rows).less (.finite ((k : Int) : Rat)) = true :=
    decide_eq_true (by exact_mod_cast h)
  rw [split, hexact, Except.bind_ok, if_pos hless]
  rfl

theorem split_ok (h : v.split X y = .ok folds) :
    ∃ p, v.plan = .ok p ∧ y.rows = X.rows ∧ p.folds y = .ok folds := by
  obtain ⟨bound, -, h⟩ := Except.exists_of_bind h
  dsimp only at h
  split at h
  · cases h
  · obtain ⟨p, hp, h⟩ := Except.exists_of_bind h
    split at h
    · cases h
    · exact ⟨p, hp, not_not.1 ‹_›, h⟩

/-- There are folds if there are rows for them, the order of the rows is settled, and some class is
large enough where they are stratified. They are numbered from 0 on and test every row once; each
trains on the rows it does not test. They are as equal in size as can be, and so are the parts of
every class where they are stratified; unshuffled rows are cut in order. -/
theorem split_partitions (v : Validator) (X : Frame) (y : Series) (k : Nat) (hk : 2 ≤ k)
    (hfolds : v.folds = .int k) :
    (X.rows < k → v.split X y = .error (.mismatch (.tooManyFolds X.rows v.folds))) ∧
    (k ≤ X.rows → y.rows = X.rows → v.IsSeeded →
      (v.isStratified = true → Classes.LargeEnough y k) → ∃ folds, v.split X y = .ok folds) ∧
    ∀ folds, v.split X y = .ok folds →
      Fold.Partition X.rows k folds ∧
      (v.isStratified = false → v.shuffle = .bool false →
        folds.flatMap Fold.test = List.range X.rows ∧
          (folds.map fun f => f.test.length).Pairwise (· ≥ ·)) ∧
      (v.isStratified = true → ∀ c : Value, ∀ f ∈ folds, ∀ g ∈ folds,
        f.countOf y c ≤ g.countOf y c + 1) := by
  refine ⟨split_of_lt hfolds, exists_split hfolds, fun folds h => ?_⟩
  obtain ⟨p, hp, hrows, hsplit⟩ := split_ok h
  obtain ⟨hcount, hstratified, hseed⟩ := plan_ok hfolds hp
  have hpos : 0 < p.count := by omega
  rw [← hcount, ← hrows]
  refine ⟨FoldPlan.folds_partition hpos hsplit, fun hplain hshuffle => ?_, fun hclasses => ?_⟩
  · exact FoldPlan.folds_consecutive hpos (hstratified.trans hplain) (hseed hshuffle) hsplit
  · exact FoldPlan.folds_countOf hpos (hstratified.trans hclasses) hsplit

def ofFive : Validator :=
  ⟨⟨"accuracy", true, fun _ _ => .ok 1.0⟩, .int 2, .text "stratified_kfold", .bool false, .null,
    .int 1⟩

def five : Series :=
  ⟨⟨.text "pet", .text, ["dog", "cat", "dog", "dog", "cat"].map Value.text⟩, rangeIndex 5⟩

theorem split_partitions_five : ∃ folds, ofFive.split ⟨rangeIndex 5, []⟩ five = .ok folds ∧
    Fold.Partition 5 2 folds ∧
    ∀ f ∈ folds, ∀ g ∈ folds, f.countOf five (.text "dog") ≤ g.countOf five (.text "dog") + 1 := by
  have hclasses : Classes.LargeEnough five 2 :=
    ⟨[.text "dog", .text "cat", .text "dog", .text "dog", .text "cat"], rfl, 0, by decide,
      by decide⟩
  obtain ⟨-, hreturns, hfolds⟩ :=
    split_partitions ofFive ⟨rangeIndex 5, []⟩ five 2 (by decide) rfl
  obtain ⟨folds, h⟩ := hreturns (by decide) rfl (.inl rfl) fun _ => hclasses
  obtain ⟨hpartition, -, hcounts⟩ := hfolds folds h
  exact ⟨folds, h, hpartition, hcounts (by decide +kernel) (.text "dog")⟩

end Validator
end ColumnFlow
