import Mathlib
import ColumnFlow.Proofs.Expression.Grammar

/-!
# Which texts are expressions

A text is read exactly if its tokens, found by maximal munch, form an expression of the grammar, and
then its tree is the tree of the derivation, up to positions. A text of nothing but blanks has no
tokens, or a blank that is not skipped.
-/
namespace ColumnFlow.Expression
open Text

theorem isBlank_of_isNameStart {c : Char} (h : isNameStart c = true) : isBlank c = false := by
  change (decide (65 ≤ c.val ∧ c.val ≤ 90) || (decide (97 ≤ c.val) && decide (c.val ≤ 122)) ||
    c == '_') = true at h
  simp only [Bool.or_eq_true, Bool.and_eq_true, decide_eq_true_eq, beq_iff_eq,
    UInt32.le_iff_toNat_le] at h
  change ((65 ≤ c.toNat ∧ c.toNat ≤ 90) ∨ (97 ≤ c.toNat ∧ c.toNat ≤ 122)) ∨ c = '_' at h
  rcases h with h | rfl
  · refine Bool.eq_false_iff.2 fun hb => ?_
    simp only [isBlank, isWhite, whiteRanges, isSeparator, List.any_cons, List.any_nil,
      Bool.or_eq_true, Bool.and_eq_true, decide_eq_true_eq, Bool.false_eq_true, or_false] at hb
    omega
  · decide

theorem Token.Valid.not_allBlank {t : Token} (hv : t.Valid) (before after : List Char) :
    allBlank (before ++ (t.chars ++ after)) = false := by
  have hstart : ∃ c more, t.chars = c :: more ∧ isBlank c = false := by
    cases t with
    | plus | arrow | opening | closing => exact ⟨_, _, rfl, by decide⟩
    | name text =>
      cases text with
      | nil => simp [Token.Valid, isName] at hv
      | cons c cs =>
        simp only [Token.Valid, isName, Bool.and_eq_true] at hv
        exact ⟨c, cs, rfl, isBlank_of_isNameStart hv.1⟩
  obtain ⟨c, more, hc, hb⟩ := hstart
  simp [allBlank, hc, hb]

theorem Cuts.eq_nil_of_allBlank {cs rest : List Char} {ts : List Token} (h : Cuts cs ts rest)
    (hb : allBlank cs = true) : ts = [] := by
  induction h with
  | nil cs => rfl
  | skip _ _ ih =>
    simp only [allBlank, List.all_cons, Bool.and_eq_true] at hb
    exact ih hb.2
  | @token t cs more rest ts ht _ _ =>
    have hn := ht.valid.not_allBlank [] more
    rw [List.nil_append, ← ht.split, hb] at hn
    cases hn

theorem read_eq_ok_iff {cs : List Char} {e : Expr} :
    read cs = .ok e ↔ ∃ ls q r, scan 0 cs = (ls, .finished q) ∧ Reader.start.run ls = .ok r ∧
      r.result? = some e := by
  constructor
  · intro h
    unfold read at h
    by_cases hb : allBlank cs = true
    · rw [if_pos hb] at h
      cases h
    · rw [if_neg hb] at h
      rcases hscan : scan 0 cs with ⟨ls, ending⟩
      simp only [hscan] at h
      cases hr : Reader.start.run ls with
      | error l => simp [hr] at h
      | ok r =>
        simp only [hr] at h
        cases ending with
        | stray c p => cases h
        | finished q =>
          simp only at h
          cases he : r.result? with
          | none => simp [he] at h
          | some e' =>
            simp only [he] at h
            cases h
            exact ⟨ls, q, r, rfl, hr, he⟩
  · rintro ⟨ls, q, r, hscan, hr, he⟩
    have hblank : ¬allBlank cs = true := by
      intro hb
      have hcut := lexes_iff_scan.2 ⟨ls, q, hscan, rfl⟩
      have hls := List.map_eq_nil_iff.1 (hcut.eq_nil_of_allBlank hb)
      subst hls
      cases hr
      cases he
    unfold read
    rw [if_neg hblank, hscan]
    simp only [hr, he]

theorem read_iff_forms {cs : List Char} {e : Expr} :
    (∃ e', read cs = .ok e' ∧ e'.same e = true) ↔ ∃ ts, Lexes cs ts ∧ Forms ts e := by
  constructor
  · rintro ⟨e', he', hsame⟩
    obtain ⟨ls, q, r, hscan, hr, hres⟩ := read_eq_ok_iff.1 he'
    exact ⟨_, lexes_iff_scan.2 ⟨ls, q, hscan, rfl⟩, (forms_of_run hr hres).of_same hsame⟩
  · rintro ⟨ts, hts, hforms⟩
    obtain ⟨ls, q, hscan, hls⟩ := lexes_iff_scan.1 hts
    obtain ⟨r, e', hr, he', hsame⟩ := hforms.run hls
    exact ⟨e', read_eq_ok_iff.2 ⟨ls, q, r, hscan, hr, he'⟩, hsame⟩

theorem parse_eq_ok_iff {text : String} {e : Expr} :
    parse text = .ok e ↔ read text.toList = .ok e := by
  unfold parse
  cases read text.toList <;> simp

theorem parse_iff_forms {text : String} {e : Expr} :
    (∃ e', parse text = .ok e' ∧ e'.same e = true) ↔
      ∃ ts, Lexes text.toList ts ∧ Forms ts e := by
  simp only [parse_eq_ok_iff, read_iff_forms]

/-- Texts with the same tokens are read alike: both fail, or their trees are the same. -/
theorem parse_same_of_lexes {s t : String} {ts : List Token} (hs : Lexes s.toList ts)
    (ht : Lexes t.toList ts) :
    (∃ e f, parse s = .ok e ∧ parse t = .ok f ∧ e.same f = true) ∨
      ∃ f g, parse s = .error f ∧ parse t = .error g := by
  by_cases h : ∃ e, Forms ts e
  · obtain ⟨e, he⟩ := h
    obtain ⟨e', he', hsame⟩ := parse_iff_forms.2 ⟨ts, hs, he⟩
    obtain ⟨f, hf, hsame'⟩ := parse_iff_forms.2 ⟨ts, ht, he⟩
    exact .inl ⟨e', f, he', hf, Expr.same_trans hsame (Expr.same_symm hsame')⟩
  · have hfail : ∀ u : String, Lexes u.toList ts → ∃ f, parse u = .error f := by
      intro u hu
      cases hp : parse u with
      | error f => exact ⟨f, rfl⟩
      | ok e =>
        obtain ⟨us, hus, hforms⟩ := parse_iff_forms.1 ⟨e, hp, Expr.same_refl e⟩
        exact absurd ⟨e, hu.unique hus ▸ hforms⟩ h
    obtain ⟨f, hf⟩ := hfail s hs
    obtain ⟨g, hg⟩ := hfail t ht
    exact .inr ⟨f, g, hf, hg⟩

/-- A text is read exactly if its longest tokens form an expression, and then as that expression.
No text has two token lists and no token list has two trees, so that texts with the same tokens are
read alike. -/
theorem reading_is_grammar :
    (∀ (text : String) (e : Expr), (∃ e', parse text = .ok e' ∧ e'.same e = true) ↔
      ∃ ts, Lexes text.toList ts ∧ Forms ts e) ∧
    (∀ cs ts us, Lexes cs ts → Lexes cs us → ts = us) ∧
    (∀ ts e f, Forms ts e → Forms ts f → e.same f = true) ∧
    ∀ (s t : String) ts, Lexes s.toList ts → Lexes t.toList ts →
      (∃ e f, parse s = .ok e ∧ parse t = .ok f ∧ e.same f = true) ∨
        ∃ f g, parse s = .error f ∧ parse t = .error g := by
  refine ⟨fun text e => parse_iff_forms, fun cs ts us h h' => h.unique h',
    fun ts e f h h' => h.unique h', fun s t ts hs ht => parse_same_of_lexes hs ht⟩

/-- A chain in parentheses stays a node of its own in the group around it. -/
theorem reading_is_grammar_enclosed :
    let ts := [.opening, .name ['a'], .arrow, .name ['b'], .closing, .plus, .name ['c']]
    let e := Expr.group [.chain [.identifier "a" 0, .identifier "b" 0], .identifier "c" 0]
    Lexes "(a |> b)+ c".toList ts ∧ Lexes " ( a|>b )+c ".toList ts ∧ Forms ts e ∧
      (∃ e', parse "(a |> b)+ c" = .ok e' ∧ e'.same e = true) ∧
      ∃ e f, parse "(a |> b)+ c" = .ok e ∧ parse " ( a|>b )+c " = .ok f ∧ e.same f = true := by
  intro ts e
  have hs : Lexes "(a |> b)+ c".toList ts := lexes_iff_scan.2 ⟨_, _, by cbv, rfl⟩
  have ht : Lexes " ( a|>b )+c ".toList ts := lexes_iff_scan.2 ⟨_, _, by cbv, rfl⟩
  have ha := Derives.lastMember (.name ['a'] 0)
  have hb := Derives.lastMember (.name ['b'] 0)
  have hab := Derives.enclosed (.step ha (.lastStep hb))
  have hc := Derives.lastMember (.name ['c'] 0)
  have he : Forms ts e := ⟨_, .lastStep (.member hab hc), rfl⟩
  have hread := (reading_is_grammar.1 _ _).2 ⟨ts, hs, he⟩
  refine ⟨hs, ht, he, hread, ?_⟩
  rcases reading_is_grammar.2.2.2 _ _ ts hs ht with h | ⟨f, g, hf, hg⟩
  · exact h
  · obtain ⟨e', he', -⟩ := hread
    rw [he'] at hf
    cases hf

end ColumnFlow.Expression
