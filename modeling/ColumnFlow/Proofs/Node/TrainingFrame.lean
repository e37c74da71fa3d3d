import ColumnFlow.Learn.Simple
import ColumnFlow.Proofs.Node.Settling
import Mathlib

/-!
# A fitted tree and its own training frame

When a fit has succeeded and the tree transforms the frame it was fitted with, every node is given
the very columns it remembers, none lacking and in the same order. A learner then asks for these
columns by label: it hands on just what it was given if no label stands there twice, and otherwise
more columns than it remembers, since a repeated label brings all of its columns each time.
-/
namespace ColumnFlow

namespace Frame

variable {F G : Frame}

theorem under_of_mem (hdistinct : F.labels.Nodup) (htexts : ∀ l ∈ F.labels, l.isText = true)
    {c : Column} (hc : c ∈ F.columns) : F.under c.label = [c] := by
  have htext := htexts c.label (List.mem_map_of_mem hc)
  have hmem : c ∈ F.under c.label := (mem_under htext).2 ⟨hc, rfl⟩
  have hone := length_under_le hdistinct htext
  match hunder : F.under c.label with
  | [] =>
    rw [hunder] at hmem
    cases hmem
  | [d] =>
    rw [hunder, List.mem_singleton] at hmem
    rw [hmem]
  | d :: e :: rest =>
    rw [hunder] at hone
    simp at hone

/-- A frame asked for its own labels, each of which stands once. -/
theorem select_labels_of_nodup (hdistinct : F.labels.Nodup)
    (htexts : ∀ l ∈ F.labels, l.isText = true) : F.select F.labels = .ok F := by
  have hcolumns : F.labels.flatMap F.under = F.columns := by
    unfold labels
    rw [List.flatMap_map, List.flatMap_congr fun c hc => under_of_mem hdistinct htexts hc]
    exact List.flatMap_singleton' _
  rw [select_eq htexts fun _ hl => hl, hcolumns]

theorem one_lt_length_under {l : Label} (h : [l, l].Sublist F.labels) :
    1 < (F.under l).length := by
  have hfound := h.filter l.finds
  rw [← labels_under] at hfound
  have htwo : 2 ≤ (F.under l).length := by simpa [finds_self] using hfound.length_le
  exact htwo

/-- A frame asked for its own labels, one of which is repeated. -/
theorem length_lt_of_select_labels (hrepeated : ¬ F.labels.Nodup)
    (htexts : ∀ l ∈ F.labels, l.isText = true) (h : F.select F.labels = .ok G) :
    F.labels.length < G.labels.length := by
  rw [select_eq htexts fun _ hl => hl] at h
  obtain rfl := Except.ok.inj h
  obtain ⟨l, hl⟩ : ∃ l, [l, l].Sublist F.labels := by
    rw [List.nodup_iff_sublist, not_forall] at hrepeated
    simpa using hrepeated
  have hones : F.labels.length = (F.labels.map fun _ => 1).sum := by simp
  change _ < ((F.labels.flatMap F.under).map (·.label)).length
  rw [List.length_map, List.length_flatMap, hones]
  refine List.sum_lt_sum _ _ (fun k hk => ?_) ⟨l, hl.subset List.mem_cons_self, ?_⟩
  · obtain ⟨c, hc, rfl⟩ := List.mem_map.1 hk
    exact List.length_pos_of_mem ((mem_under (htexts _ hk)).2 ⟨hc, rfl⟩)
  · exact one_lt_length_under hl

end Frame

namespace Memory

variable {m : Memory} {s : Site} {A : Frame}

theorem lacking_of_remembered (h : m.inputColumns s = some A.labels) : m.lacking s A = [] := by
  unfold lacking
  rw [h]
  exact List.filter_eq_nil_iff.2 fun l hl => by simp [Frame.has_of_mem hl]

/-- What is handed on of the very columns that are remembered. -/
theorem exists_features_of_remembered (h : m.inputColumns s = some A.labels)
    (htexts : ∀ l ∈ A.labels, l.isText = true) :
    ∃ F, (m.features s A).outcome = .ok F ∧ (A.labels.Nodup → F = A) ∧
      (¬ A.labels.Nodup → A.labels.length < F.labels.length) := by
  have hfeatures : (m.features s A).outcome = A.select A.labels := by
    unfold features
    rw [h]
    rfl
  rw [hfeatures]
  refine ⟨_, Frame.select_eq htexts fun _ hl => hl, fun hdistinct => ?_, fun hrepeated => ?_⟩
  · have hself := Frame.select_labels_of_nodup hdistinct htexts
    rw [Frame.select_eq htexts fun _ hl => hl] at hself
    exact Except.ok.inj hself
  · exact Frame.length_lt_of_select_labels hrepeated htexts (Frame.select_eq htexts fun _ hl => hl)

end Memory

namespace Node

variable {n q : Node} {env : Surroundings} {w v : Workspace} {X A : Frame} {y : Data}

/-! A tree to look at: an encoder, and behind it a learner that answers with one of its columns. -/

namespace Coded

def encoder : Node := ⟨.transformer (OneHot.encoder []), .mk 0 []⟩

def options : Options := [(.text "column", .text "c_a")]

def echo : Learner := ⟨"Echo", options, .labels, "classification", Learn.echo options⟩

def last : Node := ⟨.learner echo, .mk 1 []⟩

def tree : Node := ⟨.sequential [encoder.plan, last.plan], .mk 2 [encoder.site, last.site]⟩

def start : Workspace :=
  ⟨⟨#[.fresh (.text "ohe"), .fresh (.text "e"), .fresh (.text "seq")]⟩, [], false⟩

/-- The first fit of the tree. -/
def fit (X : Frame) (y : Column) : Except Failure Unit × Workspace :=
  tree.fit ⟨.error (.unusable .value), .builtin⟩ (.frame X) (.series ⟨y, X.index⟩) start

theorem sound_tree : tree.Sound start.memory where
  holds := ⟨by decide, by decide⟩
  named := by decide
  proper := by
    refine .node trivial fun q hq => ?_
    rcases List.mem_cons.1 hq with rfl | hq
    · exact .node (.encoder []) fun _ h => nomatch h
    · obtain rfl := List.mem_singleton.1 hq
      refine .node (fun X y model f h hf => ?_) fun _ h => nomatch h
      -- The models of this learner have no probabilities.
      obtain rfl := Option.some.inj (Except.ok.inj h)
      cases hf

/-- What the learner is given after a fit, from the labels that the encoder answers with. -/
theorem exists_given {y : Column} (texts : List String) (hok : (fit X y).1.isOk = true)
    (hencoded : ((encoder.reply (fit X y).2.memory X).toOption.map fun A =>
      A.labels.map Scalar.plain) = some texts) :
    ∃ v A, fit X y = (.ok (), v) ∧ Given v.memory tree X last A ∧
      A.labels.map Scalar.plain = texts := by
  rcases hfit : fit X y with ⟨e | u, v⟩ <;> rw [hfit] at hok hencoded
  · cases hok
  cases hA : encoder.reply v.memory X with
  | error e =>
    rw [hA] at hencoded
    cases hencoded
  | ok A =>
    rw [hA] at hencoded
    have hchain : [encoder].foldlM (fun A p => p.reply v.memory A) X = .ok A := by
      rw [List.foldlM_cons, hA]
      rfl
    exact ⟨v, A, rfl, .passed (.turn rfl hchain hchain) .self, Option.some.inj hencoded⟩

end Coded

/-- A fit settles a tree on the columns of the frame. -/
theorem recognizes_of_fit (hsound : n.Sound w.memory) (htexts : ∀ l ∈ X.labels, l.isText = true)
    (hfit : n.fit env (.frame X) y w = (.ok (), v)) : n.Recognizes v.memory X.labels := by
  unfold fit at hfit
  obtain ⟨frame, hframe, hfit⟩ := Work.ok_of_except hfit
  obtain rfl : X = frame := Except.ok.inj hframe
  obtain ⟨target, -, hfit⟩ := Work.ok_of_except hfit
  obtain ⟨M, hM⟩ := n.settles env X target w v hsound htexts hfit
  exact hM.recognizes

/-- While a fitted tree transforms the frame it was fitted with, every node is given the columns it
remembers, and a learner hands on just these if no label is repeated among them. -/
theorem own_frame_recognized (hsound : n.Sound w.memory) (htexts : ∀ l ∈ X.labels, l.isText = true)
    (hfit : n.fit env (.frame X) y w = (.ok (), v)) (hgiven : Given v.memory n X q A) :
    v.memory.inputColumns q.site = some A.labels ∧ v.memory.lacking q.site A = [] ∧
      ∃ F, (v.memory.features q.site A).outcome = .ok F ∧ (A.labels.Nodup → F = A) ∧
        (¬ A.labels.Nodup → A.labels.length < F.labels.length) := by
  obtain ⟨hremembered, hlabels⟩ := recognizes_of_fit hsound htexts hfit X q A rfl hgiven
  exact ⟨hremembered, Memory.lacking_of_remembered hremembered,
    Memory.exists_features_of_remembered hremembered hlabels⟩

/-- An encoder and a learner, fitted with a single column of texts. -/
theorem own_frame_recognized_coded :
    let c : Column := ⟨.text "c", .object, [.text "a", .text "b", .text "a"]⟩
    let X : Frame := ⟨[.int 0, .int 1, .int 2], [c]⟩
    ∃ v A, Coded.fit X c = (.ok (), v) ∧ Given v.memory Coded.tree X Coded.last A ∧
      v.memory.inputColumns Coded.last.site = some A.labels ∧
        (v.memory.features Coded.last.site A).outcome = .ok A := by
  intro c X
  obtain ⟨v, A, hfit, hgiven, hplain⟩ :=
    Coded.exists_given (X := X) (y := c) ["c_a", "c_b"] (by cbv) (by cbv)
  have hdistinct : A.labels.Nodup := by
    refine List.Nodup.of_map Scalar.plain ?_
    rw [hplain]
    decide
  obtain ⟨hremembered, -, F, hF, hsame, -⟩ :=
    own_frame_recognized Coded.sound_tree (by decide) hfit hgiven
  rw [hsame hdistinct] at hF
  exact ⟨v, A, hfit, hgiven, hremembered, hF⟩

/-- The encoder gives a new column the label of a column that it leaves in place. The fit succeeds,
but the learner hands on more columns than it remembers, and the transform fails. -/
theorem own_frame_refused :
    let c : Column := ⟨.text "c", .object, [.text "a", .text "b", .text "a"]⟩
    let d : Column := ⟨.text "c_a", .int64, [.int 1, .int 2, .int 3]⟩
    let X : Frame := ⟨[.int 0, .int 1, .int 2], [c, d]⟩
    let y : Column := ⟨.text "y", .object, [.text "p", .text "q", .text "p"]⟩
    Coded.tree.Sound Coded.start.memory ∧ (∀ l ∈ X.labels, l.isText = true) ∧ X.labels.Nodup ∧
      ∃ v A F, Coded.fit X y = (.ok (), v) ∧ Given v.memory Coded.tree X Coded.last A ∧
        (v.memory.features Coded.last.site A).outcome = .ok F ∧
          v.memory.inputColumns Coded.last.site ≠ some F.labels ∧
            (Coded.tree.transform v.memory (.frame X)).outcome.isOk = false := by
  intro c d X y
  have htexts : ∀ l ∈ X.labels, l.isText = true := by decide
  obtain ⟨v, A, hfit, hgiven, hplain⟩ :=
    Coded.exists_given (X := X) (y := y) ["c_a", "c_a", "c_b"] (by cbv) (by cbv)
  obtain ⟨hremembered, hlabels⟩ :=
    recognizes_of_fit Coded.sound_tree htexts hfit X Coded.last A rfl hgiven
  have hrepeated : ¬ A.labels.Nodup := by
    intro hdistinct
    have hplains := hdistinct.map_on fun k hk l hl => Labels.plain_inj (hlabels k hk) (hlabels l hl)
    rw [hplain] at hplains
    exact absurd hplains (by decide)
  obtain ⟨F, hF, -, hlonger⟩ := Memory.exists_features_of_remembered hremembered hlabels
  have hfails :
      (Coded.tree.transform (Coded.fit X y).2.memory (.frame X)).outcome.isOk = false := by cbv
  rw [hfit] at hfails
  refine ⟨Coded.sound_tree, htexts, by simp [X, c, d, Frame.labels], v, A, F, hfit, hgiven, hF,
    fun h => ?_, hfails⟩
  rw [hremembered] at h
  exact absurd (hlonger hrepeated) (by rw [Option.some.inj h]; exact Nat.lt_irrefl _)

end Node
end ColumnFlow
