import ColumnFlow.Proofs.Registry.ConstructorForm
import ColumnFlow.Proofs.Registry.Tables

/-!
# Compilation is all or nothing

The names of an expression are the name tokens of its text. They are all looked up before the first
node is made, so a name that is not registered stops the compilation while nothing has been copied,
and the failure can report every such name. When all names are known, nothing else can fail, because
every chain and every group that was read has at least two operands.
-/
namespace ColumnFlow

namespace Expression

/-- The names among some tokens, repeats kept. -/
def namesIn (ts : List Token) : List String :=
  ts.filterMap fun
    | .name text => some (String.ofList text)
    | _ => none

end Expression

namespace Expr

theorem mem_identifiersAll {es : List Expr} {e : Expr} (he : e ∈ es) :
    e.identifiers ⊆ identifiersAll es := by
  induction es with
  | nil => cases he
  | cons f es ih =>
    rw [identifiersAll]
    rcases List.mem_cons.1 he with rfl | he
    · exact List.subset_append_left _ _
    · exact fun x hx => List.mem_append_right _ (ih he hx)

end Expr

namespace Expression
open ColumnFlow.Expr

/-- A phrase has the names of its tokens, in their order. -/
theorem Derives.identifiers {phrase : Phrase} {ts : List Token} {es : List Expr}
    (h : Derives phrase ts es) : (identifiersAll es).map (·.1) = namesIn ts := by
  unfold namesIn
  induction h with
  | name text position => simp [identifiersAll, Expr.identifiers]
  | enclosed _ ih =>
    rw [identifiersAll, identifiersAll, List.append_nil, identifiers_ofSteps, ih]
    simp
  | lastMember _ ih => exact ih
  | member _ _ ih ih' =>
    rw [identifiersAll, identifiersAll, List.append_nil] at ih
    simp [identifiersAll, ih, ih']
  | lastStep _ ih =>
    rw [identifiersAll, identifiersAll, List.append_nil, identifiers_ofMembers, ih]
  | step _ _ ih ih' => simp [identifiersAll, identifiers_ofMembers, ih, ih']

theorem names_of_parse {text : String} {e : Expr} (h : parse text = .ok e) :
    ∃ ts, Lexes text.toList ts ∧ e.identifiers.map (·.1) = namesIn ts := by
  obtain ⟨ls, q, r, hscan, hr, he⟩ := read_eq_ok_iff.1 (parse_eq_ok_iff.1 h)
  obtain ⟨es, hes, rfl⟩ := derives_of_run hr he
  exact ⟨_, lexes_iff_scan.2 ⟨ls, q, hscan, rfl⟩, by rw [identifiers_ofSteps, hes.identifiers]⟩

theorem malformed_of_parse {text : String} {f : Failure} (h : parse text = .error f) :
    ∃ problem position, f = .malformed problem text (some position) := by
  unfold parse at h
  split at h
  · cases h
  · exact ⟨_, _, (Except.error.inj h).symm⟩

end Expression

namespace Registry
open Node Expression

variable {r : Registry} {w v : Workspace} {e : Expr} {es : List Expr} {x : String}
  {spoken found : List String}

theorem has_iff : r.has x = true ↔ ∃ p, r.prototypes.lookup x = some p := by
  rw [has, any_key, ← Option.isSome_iff_exists, List.lookup_isSome_iff]
  simp

/-- The names that were found are those of the spoken names that are not registered, in the order
in which they were spoken first. -/
structure Reports (r : Registry) (spoken found : List String) : Prop where
  mem_iff : ∀ x, x ∈ found ↔ x ∈ spoken ∧ r.has x = false
  ordered : found.Pairwise fun x y => spoken.idxOf x < spoken.idxOf y

/-- Another name is reported unless it is registered or was reported before. -/
theorem Reports.speak (h : r.Reports spoken found) (x : String) :
    r.Reports (spoken ++ [x])
      (if r.has x || found.contains x then found else found ++ [x]) := by
  -- What was reported was spoken before, so its first occurrence stays where it is.
  have hplace : ∀ y ∈ found, (spoken ++ [x]).idxOf y = spoken.idxOf y := fun y hy =>
    List.idxOf_append_of_mem ((h.mem_iff y).1 hy).1
  have hordered : found.Pairwise fun y z => (spoken ++ [x]).idxOf y < (spoken ++ [x]).idxOf z :=
    h.ordered.imp_of_mem fun hy hz hlt => by rwa [hplace _ hy, hplace _ hz]
  have hmem := h.mem_iff
  by_cases hx : r.has x || found.contains x
  · rw [if_pos hx]
    refine ⟨fun y => ?_, hordered⟩
    simp only [Bool.or_eq_true, List.contains_iff_mem] at hx
    grind
  · rw [if_neg hx]
    simp only [Bool.or_eq_true, List.contains_iff_mem, not_or] at hx
    have hnew : x ∉ spoken := fun hspoken =>
      hx.2 ((hmem x).2 ⟨hspoken, Bool.eq_false_iff.2 hx.1⟩)
    refine ⟨fun y => by grind, List.pairwise_append.2 ⟨hordered, List.pairwise_singleton _ x, ?_⟩⟩
    intro y hy z hz
    rw [List.mem_singleton.1 hz, hplace y hy, List.idxOf_append_of_notMem hnew]
    exact Nat.lt_of_lt_of_le (List.idxOf_lt_length_of_mem ((hmem y).1 hy).1) (Nat.le_add_right _ _)

theorem Reports.speakAll (h : r.Reports spoken found) (rest : List String) :
    r.Reports (spoken ++ rest) (rest.foldl (fun found x =>
      if r.has x || found.contains x then found else found ++ [x]) found) := by
  induction rest generalizing spoken found with
  | nil => rwa [List.append_nil]
  | cons x rest ih =>
    have hrest := ih (h.speak x)
    rwa [List.append_assoc] at hrest

theorem unknownNames_reports (r : Registry) (e : Expr) :
    r.Reports (e.identifiers.map (·.1)) (r.unknownNames e) :=
  have hnothing : r.Reports [] [] := ⟨by simp, .nil⟩
  hnothing.speakAll _

theorem exists_buildAll (ih : ∀ e ∈ es, ∀ w, ∃ n v, r.build e w = (.ok n, v)) (w : Workspace) :
    ∃ (nodes : List Node) (v : Workspace),
      r.buildAll es w = (.ok (nodes.map Part.node), v) ∧ nodes.length = es.length := by
  induction es generalizing w with
  | nil => exact ⟨[], w, rfl, rfl⟩
  | cons e es ihs =>
    obtain ⟨n, u, hn⟩ := ih e (by simp) w
    obtain ⟨nodes, v, hnodes, hlen⟩ := ihs (fun e he => ih e (by simp [he])) u
    refine ⟨n :: nodes, v, ?_, by simp [hlen]⟩
    rw [buildAll, Work.run_bind, hn]
    change (r.buildAll es >>= fun rest => pure (.node n :: rest)) u = _
    rw [Work.run_bind, hnodes]
    rfl

theorem create_of_has (hx : r.has x = true) (w : Workspace) :
    ∃ n v, r.create (.text x) w = (.ok n, v) := by
  obtain ⟨p, hp⟩ := has_iff.1 hx
  rw [create, find]
  simp only [hp]
  exact ⟨_, _, rfl⟩

/-- Nothing can fail once all names are known. -/
theorem exists_build (he : e.WellFormed) (hknown : ∀ x ∈ e.identifiers.map (·.1), r.has x = true)
    (w : Workspace) : ∃ n v, r.build e w = (.ok n, v) := by
  induction he generalizing w with
  | @identifier x position hname =>
    rw [build]
    exact create_of_has (hknown x (by simp [Expr.identifiers])) w
  | @chain es hlen _ ih =>
    have hparts := fun e he => ih e he fun x hx =>
      hknown x (List.map_subset _ (Expr.mem_identifiersAll he) hx)
    obtain ⟨nodes, u, hnodes, hcount⟩ := exists_buildAll hparts w
    rw [build, Work.run_bind, hnodes]
    change ∃ n v, sequential (nodes.map Part.node) .null u = (.ok n, v)
    rw [sequential, children_nodes _ (by omega)]
    exact ⟨_, _, rfl⟩
  | @group es hlen _ ih =>
    have hparts := fun e he => ih e he fun x hx =>
      hknown x (List.map_subset _ (Expr.mem_identifiersAll he) hx)
    obtain ⟨nodes, u, hnodes, hcount⟩ := exists_buildAll hparts w
    rw [build, Work.run_bind, hnodes]
    change ∃ n v, parallel (nodes.map Part.node) .null u = (.ok n, v)
    rw [parallel, children_nodes _ (by omega)]
    exact ⟨_, _, rfl⟩

/-- What was spoken determines the report. -/
theorem Reports.unique {found' : List String} (h : r.Reports spoken found)
    (h' : r.Reports spoken found') : found = found' := by
  have : Std.Irrefl fun x y => spoken.idxOf x < spoken.idxOf y := ⟨fun _ => Nat.lt_irrefl _⟩
  have : Std.Antisymm fun x y => spoken.idxOf x < spoken.idxOf y :=
    ⟨fun _ _ hxy hyx => absurd hxy (Nat.lt_asymm hyx)⟩
  exact h.ordered.eq_of_mem_iff h'.ordered fun x => (h.mem_iff x).trans (h'.mem_iff x).symm

theorem Reports.eq_nil_iff (h : r.Reports spoken found) :
    found = [] ↔ ∀ x ∈ spoken, r.has x = true := by
  have hmem := h.mem_iff
  constructor
  · rintro rfl x hx
    by_contra hno
    exact List.not_mem_nil ((hmem x).2 ⟨hx, Bool.eq_false_iff.2 hno⟩)
  · intro hknown
    refine List.eq_nil_iff_forall_not_mem.2 fun x hx => ?_
    obtain ⟨hspoken, hno⟩ := (hmem x).1 hx
    rw [hknown x hspoken] at hno
    cases hno

/-- The three ways in which a compilation ends. -/
inductive Ends (r : Registry) (t : String) (w : Workspace) : Except Failure Node × Workspace → Prop
  | malformed {f : Failure} : parse t = .error f → Ends r t w (.error f, w)
  | unknown {e : Expr} : parse t = .ok e → r.unknownNames e ≠ [] →
      Ends r t w (.error (.unknownComponents ((r.unknownNames e).map .text) r.names), w)
  | built {e : Expr} {n : Node} {v : Workspace} : parse t = .ok e → r.unknownNames e = [] →
      r.build e w = (.ok n, v) → Ends r t w (.ok n, v)

theorem compile_ends (r : Registry) (t : String) (w : Workspace) :
    r.Ends t w (r.compile (.text t) w) := by
  unfold compile
  rw [ExpressionInput.expr]
  cases ht : parse t with
  | error f => exact .malformed ht
  | ok e =>
    rw [Work.run_ok_bind]
    cases hnames : r.unknownNames e with
    | nil =>
      have hknown := (r.unknownNames_reports e).eq_nil_iff.1 hnames
      obtain ⟨n, v, hn⟩ := exists_build (wellFormed_of_parse ht) hknown w
      change r.Ends t w (r.build e w)
      rw [hn]
      exact .built ht hnames hn
    | cons x names =>
      have hends : r.Ends t w _ := .unknown ht (by rw [hnames]; exact List.cons_ne_nil x names)
      rwa [hnames] at hends

theorem exists_explain_iff {t : String} :
    (∃ shown, (ExpressionInput.text t).explain = .ok shown) ↔ ∃ e, parse t = .ok e := by
  cases h : parse t with
  | ok e => exact ⟨fun _ => ⟨e, rfl⟩, fun _ => ⟨_, explain_text h⟩⟩
  | error f =>
    rw [ExpressionInput.explain, ExpressionInput.expr, h]
    constructor <;> rintro ⟨_, h⟩ <;> cases h

/-- Compilation is all or nothing. A text that cannot be read is refused for its flaw, and one with
names that are not registered for all of them, in the order in which they occur first, along with
the names that are registered; no node has been made then. Every other text is compiled, to a tree
of new nodes. The nodes that there were, those of the registry among them, stay as they are, and a
text can be explained whenever it can be read. -/
theorem compile_all_or_nothing (r : Registry) (w : Workspace) (t : String)
    (hr : r.InUse w.memory) :
    (∀ f, parse t = .error f → r.compile (.text t) w = (.error f, w) ∧
      ∃ problem position, f = .malformed problem t (some position)) ∧
    (∀ e, parse t = .ok e → ∃ ts, Lexes t.toList ts ∧
      ((∃ x ∈ namesIn ts, r.has x = false) → ∃ names, r.Reports (namesIn ts) names ∧
        r.compile (.text t) w =
          (.error (.unknownComponents (names.map .text) r.names), w)) ∧
      ((∀ x ∈ namesIn ts, r.has x = true) →
        ∃ n v, r.compile (.text t) w = (.ok n, v) ∧ w.memory.Lays n.site.ids v.memory)) ∧
    (r.names.Perm (r.prototypes.map (·.1)) ∧ r.names.Pairwise (· ≤ ·)) ∧
    Memory.Extends [] w.memory (r.compile (.text t) w).2.memory ∧
    ((∃ shown, (ExpressionInput.text t).explain = .ok shown) ↔ ∃ e, parse t = .ok e) := by
  have hends := r.compile_ends t w
  refine ⟨fun f hf => ?_, fun e he => ?_,
    ⟨Failure.sortTexts_perm _, Failure.pairwise_sortTexts _⟩, ?_, exists_explain_iff⟩
  · refine ⟨?_, malformed_of_parse hf⟩
    generalize r.compile (.text t) w = answer at hends ⊢
    cases hends with
    | malformed h => rw [Except.error.inj (hf.symm.trans h)]
    | unknown h _ | built h _ _ => cases hf.symm.trans h
  · obtain ⟨ts, hts, hnames⟩ := names_of_parse he
    have hreports := r.unknownNames_reports e
    rw [hnames] at hreports
    refine ⟨ts, hts, fun ⟨x, hx, hno⟩ => ?_, fun hknown => ?_⟩
    · refine ⟨r.unknownNames e, hreports, ?_⟩
      generalize r.compile (.text t) w = answer at hends ⊢
      cases hends with
      | malformed h => cases he.symm.trans h
      | unknown h _ => rw [Except.ok.inj (he.symm.trans h)]
      | built h hnil _ =>
        obtain rfl := Except.ok.inj (he.symm.trans h)
        rw [hreports.eq_nil_iff.1 hnil x hx] at hno
        cases hno
    · have hnil := hreports.eq_nil_iff.2 hknown
      rcases hcompile : r.compile (.text t) w with ⟨answer, v⟩
      rw [hcompile] at hends
      cases hends with
      | malformed h => cases he.symm.trans h
      | unknown h hsome =>
        obtain rfl := Except.ok.inj (he.symm.trans h)
        exact absurd hnil hsome
      | built _ _ hn => exact ⟨_, v, rfl, build_lays hr hn⟩
  · generalize r.compile (.text t) w = answer at hends ⊢
    cases hends with
    | malformed _ | unknown _ _ => exact .refl [] _
    | built _ _ hn => exact (build_lays hr hn).extend

/-- Two unknown names in three places, one of them before and after the other. -/
theorem compile_all_or_nothing_unknown :
    let step : Node := ⟨.transformer (Passthrough.passthrough []), .mk 0 []⟩
    let r := ((empty.register ⟨.text "b", .node step, .text "", .text "", false⟩).1.register
      ⟨.text "a", .node step, .text "", .text "", false⟩).1
    let w : Workspace := ⟨⟨#[.fresh (.text "step")]⟩, [], false⟩
    r.InUse w.memory ∧
      r.compile (.text "a |> (zz + b) |> y + zz") w =
        (.error (.unknownComponents [.text "zz", .text "y"] ["a", "b"]), w) ∧
      (∃ shown, (ExpressionInput.text "a |> (zz + b) |> y + zz").explain = .ok shown) ∧
      ∃ n v, r.compile (.text "a |> b") w = (.ok n, v) ∧ w.memory.Lays n.site.ids v.memory := by
  intro step r w
  have hr : r.InUse w.memory := by decide
  have hparse : parse "a |> (zz + b) |> y + zz" = .ok (.chain [.identifier "a" 0,
      .group [.identifier "zz" 6, .identifier "b" 11],
      .group [.identifier "y" 17, .identifier "zz" 21]]) := by cbv
  have hparse' : parse "a |> b" = .ok (.chain [.identifier "a" 0, .identifier "b" 5]) := by cbv
  obtain ⟨-, hread, -, -, hexplain⟩ := compile_all_or_nothing r w "a |> (zz + b) |> y + zz" hr
  obtain ⟨-, hread', -⟩ := compile_all_or_nothing r w "a |> b" hr
  obtain ⟨ts, hts, hunknown, -⟩ := hread _ hparse
  obtain ⟨ts', hts', -, hknown⟩ := hread' _ hparse'
  obtain rfl := hts.unique (lexes_iff_scan.2 ⟨_, _, by cbv, rfl⟩)
  obtain rfl := hts'.unique (lexes_iff_scan.2 ⟨_, _, by cbv, rfl⟩)
  obtain ⟨names, hreports, hcompile⟩ := hunknown ⟨"zz", by decide, by decide⟩
  obtain rfl := hreports.unique (r.unknownNames_reports (.group [.identifier "a" 0,
    .identifier "zz" 0, .identifier "b" 0, .identifier "y" 0, .identifier "zz" 0]))
  have hnames : r.names = ["a", "b"] := by cbv
  refine ⟨hr, ?_, hexplain.2 ⟨_, hparse⟩, hknown (by decide)⟩
  rwa [hnames] at hcompile

end Registry
end ColumnFlow
