import ColumnFlow.Proofs.Node.Batches
import ColumnFlow.Proofs.Transform.RowBlind

/-!
# Any rows of a frame

What a fitted tree answers to some rows of a frame are those rows of what it answers to the frame,
in any order and with repeats, if all labels that are predicted in it are texts, or whole numbers of
64 bits. Whole numbers beyond that have no kind of column of their own: whether labels are coded for
a stacker then hangs on the rows that are there.
-/
namespace ColumnFlow

variable {m : Memory} {P : Value → Prop} {X F A : Frame} {positions : List Nat}

/-! Leaves that act row by row. -/

theorem Frame.select_byRows {labels : List Label}
    (hlabels : labels = [] ∨ labels.all Label.isBool = false) (hX : X.Rectangular) :
    Frame.ByRows positions (·.select labels) X := by
  have hnot : ¬ (!labels.isEmpty && labels.all Label.isBool) = true := by
    rcases hlabels with rfl | hlabels
    · simp
    · simp [hlabels]
  intro G hG
  dsimp only at hG ⊢
  unfold Frame.select at hG ⊢
  rw [if_neg hnot] at hG ⊢
  obtain ⟨lookups, hlookups, hG⟩ := Except.exists_of_bind hG
  obtain rfl := Except.ok.inj hG
  have htaken : (X.takeRows positions).lookUp labels = .ok lookups := by
    unfold Frame.lookUp at hlookups ⊢
    rw [Frame.labels_takeRows]
    exact hlookups
  refine ⟨fun c hc => ?_, rfl, ?_⟩
  · obtain ⟨found, -, hc⟩ := List.mem_flatMap.1 hc
    exact hX c (List.mem_filter.1 hc).1
  · rw [htaken]
    unfold Frame.takeRows
    simp only [List.filter_map, List.map_flatMap]
    rfl

theorem Selection.run_byRows {labels : List Label}
    (hlabels : labels = [] ∨ labels.all Label.isBool = false) (type : Value)
    (keeps : Options → Frame → Bool) (hX : X.Rectangular) :
    Frame.ByRows positions (fun X => (Fitted.run ⟨[(.text "type", type),
      (.text "columns", .ofLabels labels)], apply, keeps⟩ X).outcome) X := by
  simp only [outcome_run]
  intro G hG
  dsimp only at hG ⊢
  rw [Frame.has_takeRows]
  cases hmissing : labels.filter fun l => !X.has l with
  | cons l missing =>
    rw [hmissing] at hG
    cases hG
  | nil =>
    rw [hmissing] at hG
    exact Frame.select_byRows hlabels hX G hG

theorem Passthrough.run_byRows (params : Options) (keeps : Options → Frame → Bool)
    (hX : X.Rectangular) :
    Frame.ByRows positions (fun X => (Fitted.run ⟨params, apply, keeps⟩ X).outcome) X := by
  intro G hG
  obtain rfl : X = G := Except.ok.inj hG
  exact ⟨hX, rfl, rfl⟩

namespace Node

theorem actsByRow_transformer {t : Transformer} {s : Site} {f : Fitted}
    (hslot : (m.slot s.id).learned = .fitted f) (hf : ∀ (X : Frame) (positions : List Nat),
      X.Rectangular → Frame.ByRows positions (fun X => (f.run X).outcome) X) :
    ActsByRow m P ⟨.transformer t, s⟩ where
  answers X positions hX _ _ := by
    unfold reply
    simp only [Plan.transform]
    refine Memory.guarded_byRows ?_
    unfold Memory.applyFitted
    rw [hslot]
    exact hf X positions hX
  predictions l hl := nomatch hl

/-! Labels within trees of some nodes. -/

theorem Gives.of_labels {n : Node} {S : Series} (h : (n.labels m F).outcome = .ok S)
    (hS : ∀ v ∈ S.cells, P v) : n.Gives m P F := by
  intro T hT
  obtain rfl : S = T := Except.ok.inj (h.symm.trans hT)
  exact hS

theorem Predicts.transformer (t : Transformer) (s : Site) : Predicts m P ⟨.transformer t, s⟩ F := by
  have hasks {q : Node} {A : Frame} : ¬ Asks m F F ⟨.transformer t, s⟩ q A A :=
    not_asks rfl fun _ _ _ h => nomatch h
  exact .node (fun l hl => nomatch hl) (fun q A h => absurd h hasks) (fun q A h => nomatch h)
    fun q A h => absurd h hasks

theorem Predicts.vote {ps : List Plan} {s : Site}
    (h : ∀ q ∈ zipParts ps s.parts, q.Gives m P F ∧ q.Predicts m P F) :
    Predicts m P ⟨.vote ps, s⟩ F := by
  refine .node (fun l hl => nomatch hl) (fun q A hq => ?_) (fun q A hq => nomatch hq)
    fun q A hq => ?_
  · cases hq with
    | member hq => exact (h q hq).1
  · cases hq with
    | member hq => exact (h q hq).2

theorem Predicts.stack {t : Plan} {ps : List Plan} {settings : StackSettings} {s : Site}
    (h : ∀ q ∈ zipParts ps s.rest, q.Gives m P F ∧ q.Predicts m P F)
    (hA : stacked m ps settings s F = .ok A) (hgives : Gives m P ⟨t, s.first⟩ A)
    (hpredicts : Predicts m P ⟨t, s.first⟩ A) : Predicts m P ⟨.stack t ps settings, s⟩ F := by
  refine .node (fun l hl => nomatch hl) (fun q A hq => ?_) (fun q A hq => nomatch hq)
    fun q A hq => ?_
  · cases hq with
    | member hq => exact (h q hq).1
    | stacker hA' _ =>
      obtain rfl := Except.ok.inj (hA.symm.trans hA')
      exact hgives
  · cases hq with
    | member hq => exact (h q hq).2
    | stacker hA' _ =>
      obtain rfl := Except.ok.inj (hA.symm.trans hA')
      exact hpredicts

/-! Two votes over a single column, of which the stacker takes the first. -/

def passed (i : Nat) : Node := ⟨.transformer (Passthrough.passthrough []), .mk i []⟩

def votes (i j k : Nat) : Node :=
  ⟨.vote [(passed j).plan, (passed k).plan], .mk i [(passed j).site, (passed k).site]⟩

def firstVote : Node :=
  ⟨.transformer (Selection.numeric [(.text "columns", .ofLabels [.text "v"])]), .mk 1 []⟩

def stackedVotes : Node :=
  ⟨.stack firstVote.plan [(votes 2 3 4).plan, (votes 5 6 7).plan]
      ⟨.float 0.5, .bool false, .bool false, .int 0⟩,
    .mk 0 [firstVote.site, (votes 2 3 4).site, (votes 5 6 7).site]⟩

/-- What the nodes have learned from targets of -1 and 5. -/
def votesMemory : Memory :=
  let x : Option (List Label) := some [.text "x"]
  let kept : Learned := .fitted ⟨[(.text "type", .text "passthrough"),
    (.text "columns", .ofLabels [.text "x"])], Passthrough.apply, fun _ _ => false⟩
  ⟨#[⟨.text "st", x, .codes [(.int (-1), 0), (.int 5, 1)]⟩,
    ⟨.text "e", some [.text "v", .text "w"], .fitted ⟨[(.text "type", .text "numeric_selector"),
      (.text "columns", .ofLabels [.text "v"])], Selection.apply, fun _ _ => false⟩⟩,
    ⟨.text "v", x, .nothing⟩, ⟨.text "a", x, kept⟩, ⟨.text "b", x, kept⟩,
    ⟨.text "w", x, .nothing⟩, ⟨.text "a", x, kept⟩, ⟨.text "b", x, kept⟩]⟩

theorem passed_actsByRow {i : Nat} (hi : i ∈ [3, 4, 6, 7]) :
    (passed i).ActsByRow votesMemory P := by
  have hslot : ((votesMemory.slot i).learned) = .fitted ⟨[(.text "type", .text "passthrough"),
      (.text "columns", .ofLabels [.text "x"])], Passthrough.apply, fun _ _ => false⟩ := by
    simp only [List.mem_cons, List.not_mem_nil, or_false] at hi
    rcases hi with rfl | rfl | rfl | rfl <;> rfl
  exact actsByRow_transformer hslot fun _ _ hX => Passthrough.run_byRows _ _ hX

theorem votes_actByRow {i j k : Nat} (hj : j ∈ [3, 4, 6, 7]) (hk : k ∈ [3, 4, 6, 7]) :
    (votes i j k).Throughout fun q => q.isLeaf = true → q.ActsByRow votesMemory P := by
  refine .node (fun h => nomatch h) fun q hq => ?_
  rcases List.mem_pair.1 hq with rfl | rfl
  · exact .node (fun _ => passed_actsByRow hj) fun q hq => nomatch hq
  · exact .node (fun _ => passed_actsByRow hk) fun q hq => nomatch hq

theorem stackedVotes_actByRow :
    stackedVotes.Throughout fun q => q.isLeaf = true → q.ActsByRow votesMemory P := by
  refine .node (fun h => nomatch h) fun q hq => ?_
  rcases List.mem_cons.1 hq with rfl | hq
  · exact .node (fun _ => actsByRow_transformer rfl fun _ _ hX =>
      Selection.run_byRows (.inr rfl) _ _ hX) fun q hq => nomatch hq
  · rcases List.mem_pair.1 hq with rfl | rfl
    · exact votes_actByRow (by decide) (by decide)
    · exact votes_actByRow (by decide) (by decide)

theorem votes_predict {i j k : Nat} (hj : (passed j).Gives m P F) (hk : (passed k).Gives m P F) :
    (votes i j k).Predicts m P F := by
  refine .vote fun q hq => ?_
  rcases List.mem_pair.1 hq with rfl | rfl
  · exact ⟨hj, .transformer _ _⟩
  · exact ⟨hk, .transformer _ _⟩

theorem stackedVotes_predict (hpassed : ∀ i ∈ [3, 4, 6, 7], (passed i).Gives m P F)
    (hv : (votes 2 3 4).Gives m P F) (hw : (votes 5 6 7).Gives m P F)
    (hA : stacked m [(votes 2 3 4).plan, (votes 5 6 7).plan]
      ⟨.float 0.5, .bool false, .bool false, .int 0⟩ stackedVotes.site F = .ok A)
    (hfirst : firstVote.Gives m P A) : stackedVotes.Predicts m P F := by
  refine .stack (fun q hq => ?_) hA hfirst (.transformer _ _)
  rcases List.mem_pair.1 hq with rfl | rfl
  · exact ⟨hv, votes_predict (hpassed 3 (by decide)) (hpassed 4 (by decide))⟩
  · exact ⟨hw, votes_predict (hpassed 6 (by decide)) (hpassed 7 (by decide))⟩

def objects (a b : Int) : Frame :=
  ⟨[.int 0, .int 1], [⟨.text "x", .object, [.int a, .int b]⟩]⟩

theorem passed_gives {a b : Int} (ha : P (.int a)) (hb : P (.int b)) :
    ∀ i ∈ [3, 4, 6, 7], (passed i).Gives votesMemory P (objects a b) := by
  intro i hi
  refine .of_labels (S := ⟨⟨.text "x", .object, [.int a, .int b]⟩, [.int 0, .int 1]⟩) ?_
    (List.forall_mem_cons.2 ⟨ha, List.forall_mem_singleton.2 hb⟩)
  simp only [List.mem_cons, List.not_mem_nil, or_false] at hi
  rcases hi with rfl | rfl | rfl | rfl <;> rfl

/-- Some rows of a frame are answered with those rows of the answer to the frame. -/
theorem transform_takeRows (m : Memory) (n : Node) (k : CellKind) (hk : k.IsPlain)
    (hn : n.Throughout fun q => q.isLeaf = true → q.ActsByRow m (CellKind.of · = k))
    (X G : Frame) (hX : X.Rectangular) (hpredicts : n.Predicts m (CellKind.of · = k) X)
    (h : (n.transform m (.frame X)).outcome = .ok G) (positions : List Nat)
    (hpicks : X.Picks positions) :
    (n.transform m (.frame (X.takeRows positions))).outcome = .ok (G.takeRows positions) := by
  rw [transform_frame] at h ⊢
  exact (reply_byRows hk hn hpredicts hX hpicks G h).2.2

theorem transform_takeRows_votes :
    (stackedVotes.transform votesMemory (.frame ((objects (-1) 5).takeRows [1, 0, 1]))).outcome =
      .ok ⟨[.int 1, .int 0, .int 1],
        [⟨.text "st", .int64, [.int 5, .int (-1), .int 5]⟩]⟩ := by
  refine transform_takeRows votesMemory stackedVotes .int .int stackedVotes_actByRow
    (objects (-1) 5) ⟨[.int 0, .int 1], [⟨.text "st", .int64, [.int (-1), .int 5]⟩]⟩ (by decide)
    ?_ rfl [1, 0, 1] ⟨by decide, by decide⟩
  exact stackedVotes_predict (passed_gives (by decide) (by decide)) (.of_labels rfl (by decide))
    (.of_labels rfl (by decide)) rfl (.of_labels rfl (by decide))

/-- Whether a value is a whole number of any size. -/
def isWhole : Value → Bool
  | .scalar (.int _) => true
  | _ => false

theorem rows_of_large_numbers : ¬ ∀ (m : Memory) (n : Node) (X G : Frame) (positions : List Nat),
    (n.Throughout fun q => q.isLeaf = true → q.ActsByRow m (isWhole · = true)) →
    X.Rectangular → n.Predicts m (isWhole · = true) X →
    (n.transform m (.frame X)).outcome = .ok G → X.Picks positions →
    ∃ G', (n.transform m (.frame (X.takeRows positions))).outcome = .ok G' ∧
      G'.index = (G.takeRows positions).index ∧ G'.labels = (G.takeRows positions).labels ∧
      G'.columns.map (·.cells) = (G.takeRows positions).columns.map (·.cells) := by
  intro h
  have hpredicts : stackedVotes.Predicts votesMemory (isWhole · = true) (objects (-1) (2 ^ 63)) :=
    stackedVotes_predict (passed_gives rfl rfl) (.of_labels rfl (by decide))
      (.of_labels rfl (by decide)) rfl (.of_labels rfl (by decide))
  obtain ⟨G, hG, -, -, hcells⟩ := h votesMemory stackedVotes (objects (-1) (2 ^ 63))
    ⟨[.int 0, .int 1], [⟨.text "st", .int64, [.int 0, .int (-1)]⟩]⟩ [0] stackedVotes_actByRow
    (by decide) hpredicts rfl ⟨by decide, by decide⟩
  have halone : (stackedVotes.transform votesMemory
      (.frame ((objects (-1) (2 ^ 63)).takeRows [0]))).outcome =
        .ok ⟨[.int 0], [⟨.text "st", .int64, [.int (-1)]⟩]⟩ := rfl
  obtain rfl := Except.ok.inj (halone.symm.trans hG)
  cases hcells

end Node
end ColumnFlow
