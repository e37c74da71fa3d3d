import ColumnFlow.Proofs.Registry.AllOrNothing

/-!
# Names that expressions can say

A component can be registered under a name token of the grammar, and then the name is an expression
that compiles to a copy of the component. A line break is let through at the end of a name, but it
is skipped when the name is read, so that a component with such a name is never found.
-/
namespace ColumnFlow

namespace Expression
open Text

variable {y : String} {rest : List Char}

/-- The whole of the text is one name token. -/
def IsNameToken (text : String) : Prop := (Token.name text.toList).Leads text.toList []

theorem leads_name (hy : isName y.toList = true) (hrest : ∀ c ∈ rest, isSkipped c = true) :
    (Token.name y.toList).Leads (y.toList ++ rest) rest := by
  refine Token.leads_append (t := .name y.toList) hy fun _ _ c more hcons => ?_
  exact isNamePart_of_isSkipped (hrest c (hcons ▸ List.mem_cons_self))

theorem isNameToken_iff : IsNameToken y ↔ isName y.toList = true := by
  constructor
  · exact fun h => h.valid
  · intro hy
    have hleads : (Token.name y.toList).Leads (y.toList ++ []) [] := leads_name hy (by simp)
    rwa [List.append_nil] at hleads

theorem scan_skipped (hrest : ∀ c ∈ rest, isSkipped c = true) (p : Nat) :
    ∃ q, scan p rest = ([], .finished q) := by
  induction rest generalizing p with
  | nil => exact ⟨p, scan_nil p⟩
  | cons c rest ih =>
    rw [scan_of_isSkipped (hrest c List.mem_cons_self)]
    exact ih (fun d hd => hrest d (List.mem_cons_of_mem _ hd)) (p + 1)

/-- What is skipped after a name does not belong to it. -/
theorem parse_name {x : String} (hx : x.toList = y.toList ++ rest) (hy : IsNameToken y)
    (hrest : ∀ c ∈ rest, isSkipped c = true) : parse x = .ok (.identifier y 0) := by
  obtain ⟨q, hq⟩ := scan_skipped hrest (0 + y.toList.length)
  have hscan : scan 0 x.toList = ([⟨.name y.toList, 0⟩], .finished q) := by
    rw [hx, scan_of_leads (leads_name (isNameToken_iff.1 hy) hrest), Token.chars, hq]
  refine parse_eq_ok_iff.2 (read_eq_ok_iff.2 ⟨_, q, _, hscan, rfl, ?_⟩)
  change some (Expr.identifier (String.ofList y.toList) 0) = some (.identifier y 0)
  rw [String.ofList_toList]

end Expression

namespace Registry
open Node Expression

variable {r : Registry} {w : Workspace} {x y : String} {n p : Node} {new : Registration}

/-- The text is a name token, or one with a line break behind it. -/
def Registrable (x y : String) : Prop := IsNameToken y ∧ (x = y ∨ x = y ++ "\n")

/-- The registries that calls lead to from an empty one, those that fail included. -/
inductive Filled : Registry → Prop
  | empty : Filled .empty
  | register {r : Registry} (new : Registration) : Filled r → Filled (r.register new).1
  | unregister {r : Registry} (name : Value) : Filled r → Filled (r.unregister name).1

theorem isComponentName_iff : isComponentName x = true ↔ ∃ y, Registrable x y := by
  unfold isComponentName Registrable
  simp only [isNameToken_iff, Bool.or_eq_true, Bool.and_eq_true, beq_iff_eq]
  constructor
  · rintro (hx | ⟨hlast, hx⟩)
    · exact ⟨x, hx, .inl rfl⟩
    · refine ⟨String.ofList x.toList.dropLast, by rwa [String.toList_ofList], .inr ?_⟩
      rw [← String.toList_inj, String.toList_append, String.toList_ofList]
      exact (List.dropLast_append_getLast? _ hlast).symm
  · rintro ⟨y, hy, rfl | rfl⟩
    · exact .inl hy
    · rw [String.toList_append]
      exact .inr ⟨by simp, by simpa using hy⟩

theorem Registrable.parse (h : Registrable x y) : parse x = .ok (.identifier y 0) := by
  obtain ⟨hy, rfl | rfl⟩ := h
  · exact parse_name (List.append_nil _).symm hy (by simp)
  · exact parse_name (String.toList_append ..) hy (by simp [Text.isSkipped])

theorem name_of_check (h : r.check new = .ok (x, n)) : isComponentName x = true := by
  unfold check at h
  split at h
  case h_1 name _ =>
    by_cases hname : isComponentName name = true
    · rw [if_neg (by simp [hname])] at h
      grind
    · rw [if_pos (by simpa using hname)] at h
      cases h
  case h_2 => cases h

theorem mem_keys_put {α : Type} {entries : List (String × α)} {a : α}
    (hx : x ∈ (put entries y a).map (·.1)) : x = y ∨ x ∈ entries.map (·.1) := by
  rw [keys_put] at hx
  grind

/-- Whatever comes of a registration, a name that is new has passed the check. -/
theorem keys_register (hx : x ∈ (r.register new).1.prototypes.map (·.1)) :
    x ∈ r.prototypes.map (·.1) ∨ isComponentName x = true := by
  unfold Registry.register at hx
  rcases hcheck : r.check new with e | ⟨z, n⟩ <;> simp only [hcheck] at hx
  · exact .inl hx
  · have hput : x ∈ (put r.prototypes z n).map (·.1) := by
      split at hx <;> exact hx
    rcases mem_keys_put hput with rfl | hx
    · exact .inr (name_of_check hcheck)
    · exact .inl hx

theorem keys_unregister {name : Value}
    (hx : x ∈ (r.unregister name).1.prototypes.map (·.1)) : x ∈ r.prototypes.map (·.1) := by
  unfold Registry.unregister at hx
  rcases hfind : r.find name with e | ⟨z, n⟩ <;> simp only [hfind] at hx
  · exact hx
  · have hwithout : x ∈ (without r.prototypes z).map (·.1) := by
      split at hx <;> exact hx
    exact (List.filter_sublist.map _).subset hwithout

theorem Filled.exists_registrable (h : Filled r) (hx : x ∈ r.prototypes.map (·.1)) :
    ∃ y, Registrable x y := by
  induction h with
  | empty => cases hx
  | register new _ ih =>
    rcases keys_register hx with hx | hname
    · exact ih hx
    · exact isComponentName_iff.1 hname
  | unregister name _ ih => exact ih (keys_unregister hx)

theorem compile_identifier (hx : parse x = .ok (.identifier y 0)) (w : Workspace) :
    r.compile (.text x) w =
      if r.has y then r.create (.text y) w
      else (.error (.unknownComponents [.text y] r.names), w) := by
  unfold compile unknownNames
  rw [ExpressionInput.expr, hx, Work.run_ok_bind, Expr.identifiers]
  cases hy : r.has y with
  | false =>
    simp only [List.map_cons, List.map_nil, List.foldl_cons, List.foldl_nil, hy]
    rfl
  | true =>
    simp only [List.map_cons, List.map_nil, List.foldl_cons, List.foldl_nil, hy]
    rfl

/-- The one copy that is made of a component is renamed, and holds nothing that is fitted. -/
theorem create_unfitted (hr : r.InUse w.memory) (hp : r.prototypes.lookup x = some p) :
    ∃ n v, r.create (.text x) w = (.ok n, v) ∧ Cloned w.memory p (.text x) n v.memory ∧
      ∀ q, n.Contains q → q.isFitted v.memory = false := by
  obtain ⟨n, v, hn⟩ := create_of_has (has_iff.2 ⟨p, hp⟩) w
  have htaken : ∀ e ∈ r.prototypes, ∀ i ∈ e.2.site.ids, i < w.memory.next := fun e he i hi =>
    hr i (List.mem_flatMap.2 ⟨e, he, hi⟩)
  obtain ⟨p', hp', hclone, -⟩ := create_cloned htaken (.refl [] _) hn
  obtain rfl := Option.some.inj (hp.symm.trans hp')
  exact ⟨n, v, hn, hclone, fun q hq => hq.isFitted_eq_false (create_lays hr hn)⟩

theorem check_of_text (r : Registry) (x : String) (n : Node) (category description : Value) :
    r.check ⟨.text x, .node n, category, description, true⟩ =
      if isComponentName x then .ok (x, n) else .error (.misuse (.componentName x)) := by
  unfold check
  cases hx : isComponentName x <;> simp [hx]

theorem register_accepted (hx : isComponentName x = true) (r : Registry) (n : Node)
    (category description : String) :
    (r.register ⟨.text x, .node n, .text category, .text description, true⟩).2 = .ok () := by
  unfold Registry.register
  rw [check_of_text, if_pos hx]
  rfl

theorem register_refused (hx : isComponentName x ≠ true) (r : Registry) (n : Node)
    (category description : Value) :
    r.register ⟨.text x, .node n, category, description, true⟩ =
      (r, .error (.misuse (.componentName x))) := by
  unfold Registry.register
  rw [check_of_text, if_neg hx]

/-- A component can be registered under a name token, and under nothing else but a name token with
a line break behind it. Then every name is an expression. A name token compiles to a copy of its
component, under that name, with nothing fitted in it. A name with a line break is never looked up:
it is read without the break, and so compiles to what is registered under that name, if anything. -/
theorem names_are_identifiers (r : Registry) :
    (∀ (x category description : String) (n : Node),
      ((r.register ⟨.text x, .node n, .text category, .text description, true⟩).2 = .ok () ↔
        ∃ y, Registrable x y) ∧
      ((¬∃ y, Registrable x y) →
        r.register ⟨.text x, .node n, .text category, .text description, true⟩ =
          (r, .error (.misuse (.componentName x))))) ∧
    (Filled r → ∀ w : Workspace, r.InUse w.memory → ∀ x ∈ r.names,
      ∃ p y, r.get (.text x) = .ok p ∧ IsNameToken y ∧ parse x = .ok (.identifier y 0) ∧
        (x = y ∧ (∃ n v, r.compile (.text x) w = (.ok n, v) ∧
            Cloned w.memory p (.text x) n v.memory ∧
            ∀ q, n.Contains q → q.isFitted v.memory = false) ∨
          x = y ++ "\n" ∧ r.compile (.text x) w = r.compile (.text y) w ∧
            (y ∉ r.names → r.compile (.text x) w =
              (.error (.unknownComponents [.text y] r.names), w)))) := by
  have hmem : ∀ z, z ∈ r.names ↔ z ∈ r.prototypes.map (·.1) := fun z =>
    (Failure.sortTexts_perm _).mem_iff
  constructor
  · intro x category description n
    by_cases hx : isComponentName x = true
    · have hspelled := isComponentName_iff.1 hx
      exact ⟨iff_of_true (register_accepted hx r n category description) hspelled,
        fun hnot => absurd hspelled hnot⟩
    · have hrefused := register_refused hx r n (.text category) (.text description)
      refine ⟨?_, fun _ => hrefused⟩
      rw [hrefused]
      exact iff_of_false (fun h => by cases h) (mt isComponentName_iff.2 hx)
  · intro hfilled w hr x hx
    have hkey := (hmem x).1 hx
    obtain ⟨p, hp⟩ := has_iff.1 (any_key.2 hkey)
    obtain ⟨y, hxy⟩ := hfilled.exists_registrable hkey
    refine ⟨p, y, (Ledger.get_text r x p).2 hp, hxy.1, hxy.parse, ?_⟩
    have hcompile := compile_identifier (r := r) hxy.parse w
    rcases hxy.2 with rfl | hbreak
    · left
      rw [hcompile, if_pos (has_iff.2 ⟨p, hp⟩)]
      exact ⟨rfl, create_unfitted hr hp⟩
    · right
      have hself : Registrable y y := ⟨hxy.1, .inl rfl⟩
      refine ⟨hbreak, by rw [hcompile, compile_identifier hself.parse], fun hy => ?_⟩
      have hunknown : r.has y = false := by
        rw [← Bool.not_eq_true]
        exact fun h => hy ((hmem y).2 (any_key.1 h))
      rw [hcompile, hunknown]
      rfl

/-- Two components, one of them under a name with a line break. -/
theorem names_are_identifiers_two :
    let step : Node := ⟨.transformer (Passthrough.passthrough []), .mk 0 []⟩
    let r := ((empty.register ⟨.text "a", .node step, .text "", .text "", true⟩).1.register
      ⟨.text "b\n", .node step, .text "", .text "", true⟩).1
    let w : Workspace := ⟨⟨#[.fresh (.text "step")]⟩, [], false⟩
    r.InUse w.memory ∧ r.names = ["a", "b\n"] ∧
      (∃ n v, r.compile (.text "a") w = (.ok n, v) ∧
        Cloned w.memory step (.text "a") n v.memory ∧ n.isFitted v.memory = false) ∧
      r.compile (.text "b\n") w = (.error (.unknownComponents [.text "b"] ["a", "b\n"]), w) := by
  intro step r w
  have hfilled : Filled r := .register _ (.register _ .empty)
  have hr : r.InUse w.memory := by decide
  have hnames : r.names = ["a", "b\n"] := by cbv
  refine ⟨hr, hnames, ?_, ?_⟩
  · obtain ⟨p, y, hp, -, hparse, hends⟩ :=
      (names_are_identifiers r).2 hfilled w hr "a" (by rw [hnames]; decide)
    obtain rfl : step = p := Except.ok.inj hp
    have hy : (Expr.identifier "a" 0) = .identifier y 0 :=
      Except.ok.inj ((by cbv : parse "a" = .ok (.identifier "a" 0)).symm.trans hparse)
    obtain ⟨rfl, -⟩ := Expr.identifier.inj hy
    rcases hends with ⟨-, n, v, hn, hclone, hnew⟩ | ⟨hbreak, -⟩
    · exact ⟨n, v, hn, hclone, hnew n (.self n)⟩
    · exact absurd hbreak (by decide)
  · obtain ⟨p, y, -, -, hparse, hends⟩ :=
      (names_are_identifiers r).2 hfilled w hr "b\n" (by rw [hnames]; decide)
    have hy : (Expr.identifier "b" 0) = .identifier y 0 :=
      Except.ok.inj ((by cbv : parse "b\n" = .ok (.identifier "b" 0)).symm.trans hparse)
    obtain ⟨rfl, -⟩ := Expr.identifier.inj hy
    rcases hends with ⟨hsame, -⟩ | ⟨-, -, hunknown⟩
    · exact absurd hsame (by decide)
    · rw [hunknown (by rw [hnames]; decide), hnames]

/-- A name that no expression can say. -/
theorem line_break_registered :
    let step : Node := ⟨.transformer (Passthrough.passthrough []), .mk 0 []⟩
    let r := (empty.register ⟨.text "a\n", .node step, .text "", .text "", true⟩).1
    let w : Workspace := ⟨⟨#[.fresh (.text "step")]⟩, [], false⟩
    (empty.register ⟨.text "a\n", .node step, .text "", .text "", true⟩).2 = .ok () ∧
      ¬IsNameToken "a\n" ∧ r.names = ["a\n"] ∧
      r.compile (.text "a\n") w = (.error (.unknownComponents [.text "a"] ["a\n"]), w) := by
  intro step r w
  have hnames : r.names = ["a\n"] := by cbv
  have hparse : parse "a\n" = .ok (.identifier "a" 0) := by cbv
  refine ⟨register_accepted (by decide) _ _ _ _, mt isNameToken_iff.1 (by decide), hnames, ?_⟩
  rw [compile_identifier hparse, hnames]
  rfl

end Registry
end ColumnFlow
