import ColumnFlow.Expression.Token

/-!
# Maximal munch, as a relation

`Token.Leads` says that a text starts with a token and with no longer one, and `Cuts` that some
tokens, with skipped characters between them, can be cut off a text. The scanner computes exactly
this relation, with offsets. What is cut off does not depend on what follows, unless a name goes on.
-/
namespace ColumnFlow.Expression
open Text

/-- A token of the grammar; a name has the characters of a name. -/
def Token.Valid : Token → Prop
  | .name text => isName text = true
  | _ => True

/-- The text starts with the token and with no longer one. -/
structure Token.Leads (t : Token) (cs rest : List Char) : Prop where
  valid : t.Valid
  split : cs = t.chars ++ rest
  longest : ∀ u : Token, u.Valid → u.chars <+: cs → u.chars.length ≤ t.chars.length

/-- The tokens can be cut off the text, and the rest is left. -/
inductive Cuts : List Char → List Token → List Char → Prop
  | nil (cs : List Char) : Cuts cs [] cs
  | skip {c : Char} {cs rest : List Char} {ts : List Token} :
      isSkipped c = true → Cuts cs ts rest → Cuts (c :: cs) ts rest
  | token {t : Token} {cs more rest : List Char} {ts : List Token} :
      t.Leads cs more → Cuts more ts rest → Cuts cs (t :: ts) rest

/-- The tokens of a whole text. -/
def Lexes (cs : List Char) (ts : List Token) : Prop := Cuts cs ts []

/-- The name, if the token is one, ends before `rest`. -/
def Token.EndsBefore (t : Token) (rest : List Char) : Prop :=
  ∀ text, t = .name text → ∀ c more, rest = c :: more → isNamePart c = false

theorem isNamePart_of_isSkipped {c : Char} (h : isSkipped c = true) : isNamePart c = false := by
  simp only [isSkipped, Bool.or_eq_true, beq_iff_eq] at h
  rcases h with (((rfl | rfl) | rfl) | rfl) | rfl <;> decide

theorem munch_cons_of_isNameStart {c : Char} (h : isNameStart c = true) (cs : List Char) :
    munch (c :: cs) = some (.name (c :: cs.takeWhile isNamePart)) := by
  unfold munch
  split <;> simp_all <;> (exfalso; revert h; decide)

theorem munch_chars_append {t : Token} (hv : t.Valid) {rest : List Char}
    (he : t.EndsBefore rest) : munch (t.chars ++ rest) = some t := by
  cases t with
  | plus | arrow | opening | closing => rfl
  | name text =>
    cases text with
    | nil => simp [Token.Valid, isName] at hv
    | cons c cs =>
      simp only [Token.Valid, isName, Bool.and_eq_true] at hv
      have hstop : rest.takeWhile isNamePart = [] := by
        cases rest with
        | nil => rfl
        | cons d more => simp [he _ rfl d more rfl]
      have htake : (cs ++ rest).takeWhile isNamePart = cs := by
        rw [List.takeWhile_append_of_pos (by simpa using hv.2), hstop, List.append_nil]
      simp [Token.chars, munch_cons_of_isNameStart hv.1, htake]

theorem munch_sound {cs : List Char} {t : Token} (h : munch cs = some t) :
    t.Valid ∧ ∃ rest, cs = t.chars ++ rest ∧ t.EndsBefore rest := by
  unfold munch at h
  split at h
  case h_1 => cases h
  case h_2 rest => cases h; exact ⟨trivial, rest, rfl, by rintro text ⟨⟩⟩
  case h_3 rest => cases h; exact ⟨trivial, rest, rfl, by rintro text ⟨⟩⟩
  case h_4 rest => cases h; exact ⟨trivial, rest, rfl, by rintro text ⟨⟩⟩
  case h_5 rest => cases h; exact ⟨trivial, rest, rfl, by rintro text ⟨⟩⟩
  case h_6 c cs _ _ _ _ =>
    by_cases hs : isNameStart c = true
    · rw [if_pos hs] at h
      cases h
      have hall : (cs.takeWhile isNamePart).all isNamePart = true := List.all_takeWhile
      refine ⟨by simp only [Token.Valid, isName, hs, hall, Bool.and_self],
        cs.dropWhile isNamePart, ?_, ?_⟩
      · simp [Token.chars, List.takeWhile_append_dropWhile]
      · intro text _ d more hd
        have hstop := List.head?_dropWhile_not isNamePart cs
        simpa [hd] using hstop
    · rw [if_neg hs] at h
      cases h

/-- Every valid token at the start of a text is at most as long as the one that is found there. -/
theorem munch_longest {u : Token} (hu : u.Valid) {cs : List Char} (hp : u.chars <+: cs) :
    ∃ t, munch cs = some t ∧ u.chars.length ≤ t.chars.length := by
  obtain ⟨rest, rfl⟩ := hp
  cases u with
  | plus => exact ⟨.plus, rfl, Nat.le_refl _⟩
  | arrow => exact ⟨.arrow, rfl, Nat.le_refl _⟩
  | opening => exact ⟨.opening, rfl, Nat.le_refl _⟩
  | closing => exact ⟨.closing, rfl, Nat.le_refl _⟩
  | name text =>
    cases text with
    | nil => simp [Token.Valid, isName] at hu
    | cons c cs =>
      simp only [Token.Valid, isName, Bool.and_eq_true] at hu
      refine ⟨_, munch_cons_of_isNameStart hu.1 (cs ++ rest), ?_⟩
      rw [List.takeWhile_append_of_pos (by simpa using hu.2)]
      simp [Token.chars]

theorem munch_eq_none_iff {cs : List Char} :
    munch cs = none ↔ ∀ u : Token, u.Valid → ¬u.chars <+: cs := by
  constructor
  · intro h u hu hp
    obtain ⟨t, ht, _⟩ := munch_longest hu hp
    rw [h] at ht
    cases ht
  · intro h
    cases hm : munch cs with
    | none => rfl
    | some t =>
      obtain ⟨hv, rest, hs, _⟩ := munch_sound hm
      exact absurd ⟨rest, hs.symm⟩ (h t hv)

namespace Token

theorem leads_of_munch {cs : List Char} {t : Token} (h : munch cs = some t) :
    t.Leads cs (cs.drop t.chars.length) := by
  obtain ⟨hv, rest, hs, _⟩ := munch_sound h
  refine ⟨hv, by rw [hs, List.drop_left], fun u hu hp => ?_⟩
  obtain ⟨t', ht', hle⟩ := munch_longest hu hp
  rw [h] at ht'
  cases ht'
  exact hle

theorem Leads.endsBefore {t : Token} {cs rest : List Char} (h : t.Leads cs rest) :
    t.EndsBefore rest := by
  rintro text rfl c more rfl
  refine Bool.eq_false_iff.2 fun hc => ?_
  have hv : (Token.name (text ++ [c])).Valid := by
    have ht := h.valid
    cases text with
    | nil => simp [Valid, isName] at ht
    | cons d ds =>
      simp only [Valid, isName, Bool.and_eq_true] at ht
      simp [Valid, isName, ht.1, ht.2, hc]
  have hl := h.longest _ hv ⟨more, by simp [h.split, chars]⟩
  simp only [chars, List.length_append, List.length_cons, List.length_nil] at hl
  omega

theorem Leads.munch {t : Token} {cs rest : List Char} (h : t.Leads cs rest) :
    munch cs = some t := by
  rw [h.split]
  exact munch_chars_append h.valid h.endsBefore

theorem leads_append {t : Token} (hv : t.Valid) {rest : List Char} (he : t.EndsBefore rest) :
    t.Leads (t.chars ++ rest) rest := by
  have h := leads_of_munch (munch_chars_append hv he)
  rwa [List.drop_left] at h

theorem Valid.chars_eq_cons {t : Token} (hv : t.Valid) :
    ∃ c more, t.chars = c :: more ∧ isSkipped c = false := by
  cases t with
  | plus | arrow | opening | closing => exact ⟨_, _, rfl, by decide⟩
  | name text =>
    cases text with
    | nil => simp [Valid, isName] at hv
    | cons c cs =>
      simp only [Valid, isName, Bool.and_eq_true] at hv
      refine ⟨c, cs, rfl, Bool.eq_false_iff.2 fun hc => ?_⟩
      simp only [isSkipped, Bool.or_eq_true, beq_iff_eq] at hc
      have hstart := hv.1
      rcases hc with (((rfl | rfl) | rfl) | rfl) | rfl <;> exact absurd hstart (by decide)

end Token

/-- The next character goes on with a name only if it did so before. -/
def Follows (rest other : List Char) : Prop :=
  ∀ c more, other = c :: more → isNamePart c = true → ∃ more', rest = c :: more'

theorem Follows.of_head {c : Char} {cs : List Char} (hc : isNamePart c = false)
    (rest : List Char) : Follows rest (c :: cs) := by
  intro d more h hd
  cases h
  rw [hc] at hd
  cases hd

theorem Follows.nil (rest : List Char) : Follows rest [] := by
  intro d more h
  cases h

theorem Token.EndsBefore.follows {t : Token} {rest other : List Char} (h : t.EndsBefore rest)
    (hf : Follows rest other) : t.EndsBefore other := by
  intro text ht c more ho
  refine Bool.eq_false_iff.2 fun hc => ?_
  obtain ⟨more', hr⟩ := hf c more ho hc
  rw [h text ht c more' hr] at hc
  cases hc

/-- What is cut off does not depend on the rest, unless a name goes on. -/
theorem Cuts.follow {cs rest : List Char} {ts : List Token} (h : Cuts cs ts rest) :
    ∃ before, cs = before ++ rest ∧
      ∀ other, Follows rest other → Cuts (before ++ other) ts other := by
  induction h with
  | nil cs => exact ⟨[], rfl, fun other _ => .nil other⟩
  | @skip c cs rest ts hc _ ih =>
    obtain ⟨before, rfl, hb⟩ := ih
    exact ⟨c :: before, rfl, fun other hf => .skip hc (hb other hf)⟩
  | @token t cs more rest ts ht _ ih =>
    obtain ⟨before, rfl, hb⟩ := ih
    refine ⟨t.chars ++ before, by simp [ht.split], fun other hf => ?_⟩
    have he : t.EndsBefore (before ++ other) := by
      cases before with
      | nil => exact ht.endsBefore.follows hf
      | cons c before =>
        intro text htext d more hd
        cases hd
        exact ht.endsBefore text htext c _ rfl
    rw [List.append_assoc]
    exact .token (Token.leads_append ht.valid he) (hb other hf)

theorem Cuts.trans {cs more rest : List Char} {ts us : List Token} (h : Cuts cs ts more)
    (h' : Cuts more us rest) : Cuts cs (ts ++ us) rest := by
  induction h with
  | nil cs => exact h'
  | skip hc _ ih => exact .skip hc (ih h')
  | token ht _ ih => exact .token ht (ih h')

theorem Cuts.chars {t : Token} (hv : t.Valid) {rest : List Char} (he : t.EndsBefore rest) :
    Cuts (t.chars ++ rest) [t] rest :=
  .token (Token.leads_append hv he) (.nil rest)

theorem Cuts.symbol (t : Token) (ht : ∀ text, t ≠ .name text) (rest : List Char) :
    Cuts (t.chars ++ rest) [t] rest := by
  refine .chars ?_ fun text h => absurd h (ht text)
  cases t with
  | name text => exact absurd rfl (ht text)
  | plus | arrow | opening | closing => trivial

theorem scan_nil (p : Nat) : scan p [] = ([], .finished p) := by
  rw [scan]

theorem scan_of_isSkipped {c : Char} (hc : isSkipped c = true) (p : Nat) (cs : List Char) :
    scan p (c :: cs) = scan (p + 1) cs := by
  rw [scan, if_pos hc]

theorem scan_of_munch_eq_none {c : Char} {cs : List Char} (hc : isSkipped c = false)
    (hm : munch (c :: cs) = none) (p : Nat) : scan p (c :: cs) = ([], .stray c p) := by
  rw [scan, if_neg (by simp [hc])]
  split
  · rfl
  · next t ht => rw [hm] at ht; cases ht

theorem scan_of_leads {t : Token} {cs rest : List Char} (h : t.Leads cs rest) (p : Nat) :
    scan p cs = (⟨t, p⟩ :: (scan (p + t.chars.length) rest).1,
      (scan (p + t.chars.length) rest).2) := by
  obtain ⟨c, more, hc, hs⟩ := h.valid.chars_eq_cons
  have hm := h.munch
  obtain ⟨-, rfl, -⟩ := h
  rw [hc, List.cons_append] at hm ⊢
  rw [scan, if_neg (by simp [hs])]
  split
  · next hn => rw [hm] at hn; cases hn
  · next u hu =>
    rw [hm] at hu
    cases hu
    rw [← List.cons_append, hc, List.drop_left' rfl]

/-- The scanner finds the tokens that can be cut off, and goes on with the rest. -/
theorem Cuts.scan_eq {cs rest : List Char} {ts : List Token} (h : Cuts cs ts rest) (p : Nat) :
    ∃ ls q, ls.map (·.token) = ts ∧ q + rest.length = p + cs.length ∧
      scan p cs = (ls ++ (scan q rest).1, (scan q rest).2) := by
  induction h generalizing p with
  | nil cs => exact ⟨[], p, rfl, rfl, rfl⟩
  | skip hc _ ih =>
    obtain ⟨ls, q, hls, hq, hscan⟩ := ih (p + 1)
    refine ⟨ls, q, hls, ?_, ?_⟩
    · rw [hq, List.length_cons]
      omega
    · rw [scan_of_isSkipped hc, hscan]
  | @token t cs more rest ts ht _ ih =>
    obtain ⟨ls, q, hls, hq, hscan⟩ := ih (p + t.chars.length)
    refine ⟨⟨t, p⟩ :: ls, q, by simp [hls], ?_, ?_⟩
    · rw [hq, ht.split, List.length_append]
      omega
    · rw [scan_of_leads ht, hscan]
      rfl

/-- Wherever the tokens that the scanner finds are divided, the first of them can be cut off, and
the others are found in the rest. -/
theorem cuts_of_scan {p : Nat} {cs : List Char} {ls ls' : List Located}
    (h : (scan p cs).1 = ls ++ ls') :
    ∃ rest q, Cuts cs (ls.map (·.token)) rest ∧ q + rest.length = p + cs.length ∧
      (∀ c more, rest = c :: more → isSkipped c = false) ∧
      scan q rest = (ls', (scan p cs).2) := by
  fun_induction scan p cs generalizing ls with
  | case1 p =>
    obtain ⟨rfl, rfl⟩ := List.append_eq_nil_iff.1 h.symm
    refine ⟨[], p, .nil [], rfl, ?_, scan_nil p⟩
    intro c more hc
    cases hc
  | case2 p c cs hc ih =>
    obtain ⟨rest, q, hcut, hq, hhead, hscan⟩ := ih h
    refine ⟨rest, q, .skip hc hcut, ?_, hhead, hscan⟩
    rw [hq, List.length_cons]
    omega
  | case3 p c cs hc hm =>
    obtain ⟨rfl, rfl⟩ := List.append_eq_nil_iff.1 h.symm
    refine ⟨c :: cs, p, .nil _, rfl, ?_, scan_of_munch_eq_none (by simpa using hc) hm p⟩
    intro d more hd
    cases hd
    simpa using hc
  | case4 p c cs hc t hm found ending hfound ih =>
    have ht := Token.leads_of_munch hm
    cases ls with
    | nil =>
      refine ⟨c :: cs, p, .nil _, rfl, ?_, ?_⟩
      · intro d more hd
        cases hd
        simpa using hc
      · rw [scan_of_leads ht, hfound]
        exact congrArg (·, ending) h
    | cons l ls =>
      simp only [List.cons_append, List.cons.injEq] at h
      obtain ⟨rfl, hrest⟩ := h
      obtain ⟨rest, q, hcut, hq, hhead, hscan⟩ := ih (by rw [hfound]; exact hrest)
      refine ⟨rest, q, .token ht hcut, ?_, hhead, by rw [hscan, hfound]⟩
      rw [hq, congrArg List.length ht.split, List.length_append]
      omega

theorem lexes_iff_scan {cs : List Char} {ts : List Token} :
    Lexes cs ts ↔ ∃ ls q, scan 0 cs = (ls, .finished q) ∧ ls.map (·.token) = ts := by
  constructor
  · intro h
    obtain ⟨ls, q, hls, -, hscan⟩ := h.scan_eq 0
    refine ⟨ls, q, ?_, hls⟩
    rw [hscan, scan_nil]
    simp
  · rintro ⟨ls, q, hscan, rfl⟩
    have hls : (scan 0 cs).1 = ls ++ [] := by rw [hscan, List.append_nil]
    obtain ⟨rest, q', hcut, -, hhead, hrest⟩ := cuts_of_scan hls
    rw [hscan] at hrest
    cases rest with
    | nil => exact hcut
    | cons c more =>
      have hc := hhead c more rfl
      cases hm : munch (c :: more) with
      | none => rw [scan_of_munch_eq_none hc hm] at hrest; cases hrest
      | some t => rw [scan_of_leads (Token.leads_of_munch hm)] at hrest; cases hrest

theorem Lexes.unique {cs : List Char} {ts us : List Token} (h : Lexes cs ts) (h' : Lexes cs us) :
    ts = us := by
  obtain ⟨ls, q, hscan, rfl⟩ := lexes_iff_scan.1 h
  obtain ⟨ls', q', hscan', rfl⟩ := lexes_iff_scan.1 h'
  rw [hscan] at hscan'
  cases hscan'
  rfl

theorem Cuts.prefix_of_lexes {cs rest : List Char} {ts us : List Token} (h : Cuts cs ts rest)
    (h' : Lexes cs us) : ts <+: us := by
  obtain ⟨ls, q, rfl, -, hscan⟩ := h.scan_eq 0
  obtain ⟨ls', q', hscan', rfl⟩ := lexes_iff_scan.1 h'
  rw [hscan] at hscan'
  obtain ⟨rfl, -⟩ := Prod.mk.inj hscan'
  rw [List.map_append]
  exact List.prefix_append _ _

end ColumnFlow.Expression
