import ColumnFlow.Expression.Printer
import ColumnFlow.Proofs.Expression.Reading

/-!
# Reading what was written

The text of a tree is cut into the tokens of a derivation of that tree: parentheses stand exactly
where the grammar would otherwise regroup. So reading it gives the tree back, and since every tree
that is read stands for a text, reading, writing and reading again changes nothing.
-/
namespace ColumnFlow.Expression
open Text ColumnFlow.Expr

/-- The characters are cut into the tokens, unless a name goes on after them. -/
def Prints (cs : List Char) (ts : List Token) : Prop :=
  ∀ rest, Follows [] rest → Cuts (cs ++ rest) ts rest

namespace Prints

theorem lexes {cs : List Char} {ts : List Token} (h : Prints cs ts) : Lexes cs ts := by
  have hcut := h [] (Follows.nil [])
  rwa [List.append_nil] at hcut

theorem name {text : List Char} (h : isName text = true) : Prints text [.name text] := by
  intro rest hf
  have hv : (Token.name text).Valid := h
  have he : (Token.name text).EndsBefore rest := by
    intro _ _ c more hc
    refine Bool.eq_false_iff.2 fun hpart => ?_
    obtain ⟨more', hnil⟩ := hf c more hc hpart
    cases hnil
  exact .chars hv he

theorem enclosed {cs : List Char} {ts : List Token} (h : Prints cs ts) :
    Prints (Expr.enclosed cs) (.opening :: (ts ++ [.closing])) := by
  intro rest _
  have hopen : Cuts ('(' :: (cs ++ ')' :: rest)) [.opening] (cs ++ ')' :: rest) :=
    .symbol .opening (by simp) _
  have hclose : Cuts (')' :: rest) [.closing] rest := .symbol .closing (by simp) rest
  have hinside := (h (')' :: rest) (Follows.of_head (by decide) [])).trans hclose
  simpa [Expr.enclosed] using hopen.trans hinside

theorem operator {cs ds : List Char} {ts us : List Token} {t : Token} (h : Prints cs ts)
    (ht : ∀ text, t ≠ .name text) (h' : Prints ds us) :
    Prints (cs ++ (' ' :: t.chars ++ [' ']) ++ ds) (ts ++ t :: us) := by
  intro rest hf
  have hafter : Cuts (' ' :: (ds ++ rest)) us rest := .skip (by decide) (h' rest hf)
  have hsymbol : Cuts (' ' :: (t.chars ++ ' ' :: (ds ++ rest))) (t :: us) rest :=
    .skip (by decide) ((Cuts.symbol t ht _).trans hafter)
  have hblank : Follows [] (' ' :: (t.chars ++ ' ' :: (ds ++ rest))) := .of_head (by decide) []
  simpa using (h _ hblank).trans hsymbol

end Prints

/-- The tokens of a tree, by its outermost form: those of an operand, of a group or of a chain. -/
def Spells (ts : List Token) : Expr → Prop
  | .identifier name position => Derives .operand ts [.identifier name position]
  | .group xs => Derives .group ts xs
  | .chain xs => Derives .chain ts xs
  | .other _ => False

theorem Spells.chain {ts : List Token} {e : Expr} (h : Spells ts e) (he : e.WellFormed) :
    ∃ es, Derives .chain ts es ∧ Expr.ofSteps es = e := by
  cases he with
  | identifier position hname => exact ⟨_, .lastStep (.lastMember h), rfl⟩
  | chain hlen hxs => exact ⟨_, h, ofSteps_of_two_le hlen⟩
  | group hlen hxs => exact ⟨_, .lastStep h, ofMembers_of_two_le hlen⟩

theorem Spells.enclosed {ts : List Token} {e : Expr} (h : Spells ts e) (he : e.WellFormed) :
    Derives .operand (.opening :: (ts ++ [.closing])) [e] := by
  obtain ⟨es, hes, rfl⟩ := h.chain he
  exact .enclosed hes

theorem exists_member {e : Expr} {ts : List Token} (he : e.WellFormed)
    (hp : Prints e.sourceChars ts) (h : Spells ts e) :
    ∃ us, Derives .operand us [e] ∧
      Prints (if e.isIdentifier then e.sourceChars else Expr.enclosed e.sourceChars) us := by
  cases he with
  | identifier position hname => exact ⟨ts, h, hp⟩
  | chain hlen hxs => exact ⟨_, h.enclosed (.chain hlen hxs), hp.enclosed⟩
  | group hlen hxs => exact ⟨_, h.enclosed (.group hlen hxs), hp.enclosed⟩

theorem exists_step {e : Expr} {ts : List Token} (he : e.WellFormed)
    (hp : Prints e.sourceChars ts) (h : Spells ts e) :
    ∃ us es, Derives .group us es ∧ Expr.ofMembers es = e ∧
      Prints (if e.isChain then Expr.enclosed e.sourceChars else e.sourceChars) us := by
  cases he with
  | identifier position hname => exact ⟨ts, _, .lastMember h, rfl, hp⟩
  | chain hlen hxs =>
    exact ⟨_, _, .lastMember (h.enclosed (.chain hlen hxs)), rfl, hp.enclosed⟩
  | group hlen hxs => exact ⟨ts, _, h, ofMembers_of_two_le hlen, hp⟩

theorem exists_members {xs : List Expr} (hne : xs ≠ []) (hwf : ∀ x ∈ xs, x.WellFormed)
    (h : ∀ x ∈ xs, ∃ ts, Prints x.sourceChars ts ∧ Spells ts x) :
    ∃ ts, Prints (Expr.separated " + ".toList (Expr.memberSources xs)) ts ∧
      Derives .group ts xs := by
  induction xs with
  | nil => exact absurd rfl hne
  | cons x xs ih =>
    obtain ⟨ts, hts, hspell⟩ := h x (by simp)
    obtain ⟨us, hus, hprint⟩ := exists_member (hwf x (by simp)) hts hspell
    cases xs with
    | nil => exact ⟨us, hprint, .lastMember hus⟩
    | cons y ys =>
      obtain ⟨vs, hvs, hrest⟩ := ih (by simp) (fun z hz => hwf z (by simp [hz]))
        fun z hz => h z (by simp [hz])
      have hboth := hprint.operator (t := .plus) (by simp) hvs
      exact ⟨_, hboth, .member hus hrest⟩

theorem exists_steps {xs : List Expr} (hne : xs ≠ []) (hwf : ∀ x ∈ xs, x.WellFormed)
    (h : ∀ x ∈ xs, ∃ ts, Prints x.sourceChars ts ∧ Spells ts x) :
    ∃ ts, Prints (Expr.separated " |> ".toList (Expr.stepSources xs)) ts ∧
      Derives .chain ts xs := by
  induction xs with
  | nil => exact absurd rfl hne
  | cons x xs ih =>
    obtain ⟨ts, hts, hspell⟩ := h x (by simp)
    obtain ⟨us, es, hus, hx, hprint⟩ := exists_step (hwf x (by simp)) hts hspell
    cases xs with
    | nil => exact ⟨us, hprint, hx ▸ .lastStep hus⟩
    | cons y ys =>
      obtain ⟨vs, hvs, hrest⟩ := ih (by simp) (fun z hz => hwf z (by simp [hz]))
        fun z hz => h z (by simp [hz])
      have hboth := hprint.operator (t := .arrow) (by simp) hvs
      exact ⟨_, hboth, hx ▸ .step hus hrest⟩

/-- The text of a tree is cut into the tokens of a derivation of the tree. -/
theorem exists_tokens {e : Expr} (he : e.WellFormed) :
    ∃ ts, Prints e.sourceChars ts ∧ Spells ts e := by
  induction he with
  | @identifier name position hname =>
    refine ⟨[.name name.toList], ?_, ?_⟩
    · exact Prints.name hname
    · have hderives := Derives.name name.toList position
      rwa [String.ofList_toList] at hderives
  | @chain xs hlen hxs ih => exact exists_steps (by rintro rfl; simp at hlen) hxs ih
  | @group xs hlen hxs ih => exact exists_members (by rintro rfl; simp at hlen) hxs ih

theorem Derives.wellFormed {phrase : Phrase} {ts : List Token} {es : List Expr}
    (h : Derives phrase ts es) (hv : ∀ t ∈ ts, t.Valid) :
    es ≠ [] ∧ ∀ e ∈ es, e.WellFormed := by
  induction h with
  | name text position =>
    have hname : isName text = true := hv (.name text) (by simp)
    refine ⟨by simp, fun e he => ?_⟩
    rw [List.mem_singleton.1 he]
    exact .identifier position (by simpa using hname)
  | enclosed _ ih =>
    obtain ⟨hne, hes⟩ := ih fun t ht => hv t (by simp [ht])
    refine ⟨by simp, fun e he => ?_⟩
    rw [List.mem_singleton.1 he]
    exact wellFormed_ofSteps hne hes
  | lastMember _ ih => exact ih hv
  | member _ _ ih ih' =>
    obtain ⟨-, hes⟩ := ih fun t ht => hv t (by simp [ht])
    obtain ⟨-, hfs⟩ := ih' fun t ht => hv t (by simp [ht])
    refine ⟨by simp, fun e he => ?_⟩
    rcases List.mem_cons.1 he with rfl | he
    · exact hes _ (by simp)
    · exact hfs e he
  | lastStep _ ih =>
    obtain ⟨hne, hes⟩ := ih hv
    refine ⟨by simp, fun e he => ?_⟩
    rw [List.mem_singleton.1 he]
    exact wellFormed_ofMembers hne hes
  | step _ _ ih ih' =>
    obtain ⟨hne, hes⟩ := ih fun t ht => hv t (by simp [ht])
    obtain ⟨-, hfs⟩ := ih' fun t ht => hv t (by simp [ht])
    refine ⟨by simp, fun e he => ?_⟩
    rcases List.mem_cons.1 he with rfl | he
    · exact wellFormed_ofMembers hne hes
    · exact hfs e he

theorem Cuts.valid {cs rest : List Char} {ts : List Token} (h : Cuts cs ts rest) :
    ∀ t ∈ ts, t.Valid := by
  induction h with
  | nil cs => simp
  | skip _ _ ih => exact ih
  | token ht _ ih =>
    intro u hu
    rcases List.mem_cons.1 hu with rfl | hu
    · exact ht.valid
    · exact ih u hu

theorem wellFormed_of_parse {text : String} {e : Expr} (h : parse text = .ok e) :
    e.WellFormed := by
  obtain ⟨ls, q, r, hscan, hr, he⟩ := read_eq_ok_iff.1 (parse_eq_ok_iff.1 h)
  have hlex : Lexes text.toList (ls.map (·.token)) := lexes_iff_scan.2 ⟨ls, q, hscan, rfl⟩
  obtain ⟨es, hes, rfl⟩ := derives_of_run hr he
  obtain ⟨hne, hwf⟩ := hes.wellFormed (Cuts.valid hlex)
  exact wellFormed_ofSteps hne hwf

theorem parse_source {e : Expr} (he : e.WellFormed) :
    ∃ e', parse e.source = .ok e' ∧ e'.same e = true := by
  obtain ⟨ts, hts, hspell⟩ := exists_tokens he
  obtain ⟨es, hes, hexpr⟩ := hspell.chain he
  refine parse_iff_forms.2 ⟨ts, ?_, es, hes, by rw [hexpr]; exact Expr.same_refl e⟩
  rw [Expr.source, String.toList_ofList]
  exact hts.lexes

/-- Writing a tree that stands for a text and reading it gives the tree back, and all trees that are
read are of that kind. -/
theorem read_write_read :
    (∀ e : Expr, e.WellFormed → ∃ e', parse e.source = .ok e' ∧ e'.same e = true) ∧
    ∀ (text : String) (e : Expr), parse text = .ok e →
      e.WellFormed ∧ ∃ e', parse e.source = .ok e' ∧ e'.same e = true :=
  ⟨fun _ he => parse_source he, fun _ _ h =>
    ⟨wellFormed_of_parse h, parse_source (wellFormed_of_parse h)⟩⟩

/-- Chains in a chain and groups in a group keep their parentheses, and others are lost. -/
theorem read_write_read_nested :
    let e := Expr.chain [.chain [.identifier "a" 0, .identifier "_b1" 0],
      .group [.identifier "c" 0, .group [.identifier "d" 0, .identifier "e" 0]]]
    let f := Expr.group [.identifier "a" 2, .identifier "b" 6]
    e.WellFormed ∧ e.source = "(a |> _b1) |> c + (d + e)" ∧
      (∃ e', parse e.source = .ok e' ∧ e'.same e = true) ∧
      parse "((a))+b" = .ok f ∧ f.WellFormed ∧ f.source = "a + b" ∧
      ∃ f', parse f.source = .ok f' ∧ f'.same f = true := by
  intro e f
  have hname : ∀ name ∈ ["a", "_b1", "c", "d", "e"], isName name.toList = true := by decide
  have hid : ∀ name ∈ ["a", "_b1", "c", "d", "e"], (Expr.identifier name 0).WellFormed :=
    fun name h => .identifier 0 (hname name h)
  have he : e.WellFormed := by
    refine .chain (by decide) fun x hx => ?_
    simp only [List.mem_cons, List.not_mem_nil, or_false] at hx
    rcases hx with rfl | rfl
    · refine .chain (by decide) fun y hy => ?_
      simp only [List.mem_cons, List.not_mem_nil, or_false] at hy
      rcases hy with rfl | rfl <;> exact hid _ (by simp)
    · refine .group (by decide) fun y hy => ?_
      simp only [List.mem_cons, List.not_mem_nil, or_false] at hy
      rcases hy with rfl | rfl
      · exact hid _ (by simp)
      · refine .group (by decide) fun z hz => ?_
        simp only [List.mem_cons, List.not_mem_nil, or_false] at hz
        rcases hz with rfl | rfl <;> exact hid _ (by simp)
  have hf : parse "((a))+b" = .ok f := by cbv
  obtain ⟨hwf, hagain⟩ := read_write_read.2 _ f hf
  exact ⟨he, by cbv, read_write_read.1 e he, hf, hwf, by cbv, hagain⟩

end ColumnFlow.Expression
