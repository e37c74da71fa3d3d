import ColumnFlow.Proofs.Expression.RoundTrip

/-!
# Where the identifiers stand

`Laid` is maximal munch with offsets, and the names among the tokens are the words of the text: the
pieces that are a name and have no character of a name on either side. The reader keeps the names it
has read in their order, whichever level and whichever operand they end up in, so that the
identifiers of a tree are the names of its text with their offsets.
-/
namespace ColumnFlow.Expression
open Text

/-- The tokens of a whole text whose first character has the offset `p`, with their offsets. -/
inductive Laid : Nat → List Char → List Located → Prop
  | nil (p : Nat) : Laid p [] []
  | skip {p : Nat} {c : Char} {cs : List Char} {ls : List Located} :
      isSkipped c = true → Laid (p + 1) cs ls → Laid p (c :: cs) ls
  | token {p : Nat} {t : Token} {cs rest : List Char} {ls : List Located} :
      t.Leads cs rest → Laid (p + t.chars.length) rest ls → Laid p cs (⟨t, p⟩ :: ls)

theorem laid_iff_scan {p : Nat} {cs : List Char} {ls : List Located} :
    Laid p cs ls ↔ ∃ q, scan p cs = (ls, .finished q) := by
  constructor
  · intro h
    induction h with
    | nil p => exact ⟨p, scan_nil p⟩
    | skip hc _ ih =>
      obtain ⟨q, hq⟩ := ih
      exact ⟨q, by rw [scan_of_isSkipped hc, hq]⟩
    | token ht _ ih =>
      obtain ⟨q, hq⟩ := ih
      exact ⟨q, by rw [scan_of_leads ht, hq]⟩
  · rintro ⟨q, h⟩
    fun_induction scan p cs generalizing ls with
    | case1 p =>
      cases h
      exact .nil _
    | case2 p c cs hc ih => exact .skip hc (ih h)
    | case3 p c cs hc hm => cases h
    | case4 p c cs hc t hm found ending hfound ih =>
      cases h
      exact .token (Token.leads_of_munch hm) (ih hfound)

/-! ## Words -/

/-- A piece of the text, at an offset, that is a name and cannot be made longer on either side. -/
structure IsWord (cs name : List Char) (p : Nat) : Prop where
  isName : isName name = true
  here : (cs.drop p).take name.length = name
  before : ∀ q c, q + 1 = p → cs[q]? = some c → isNamePart c = false
  after : ∀ c, cs[p + name.length]? = some c → isNamePart c = false

theorem isNamePart_of_isNameStart {c : Char} (h : isNameStart c = true) : isNamePart c = true := by
  simp only [isNameStart, isNamePart, Char.isAlphanum, Bool.or_eq_true] at h ⊢
  tauto

theorem exists_isNameStart {name : List Char} (h : isName name = true) :
    ∃ c more, name = c :: more ∧ isNameStart c = true := by
  cases name with
  | nil => cases h
  | cons c more =>
    simp only [isName, Bool.and_eq_true] at h
    exact ⟨c, more, rfl, h.1⟩

theorem isNamePart_of_mem {name : List Char} (h : isName name = true) {c : Char} (hc : c ∈ name) :
    isNamePart c = true := by
  cases name with
  | nil => cases h
  | cons d more =>
    simp only [isName, Bool.and_eq_true, List.all_eq_true] at h
    rcases List.mem_cons.1 hc with rfl | hc
    · exact isNamePart_of_isNameStart h.1
    · exact h.2 c hc

namespace IsWord
variable {cs name : List Char} {p : Nat}

theorem lt_length (h : IsWord cs name p) : p < cs.length := by
  obtain ⟨c, more, rfl, -⟩ := exists_isNameStart h.isName
  have hlen := congrArg List.length h.here
  simp only [List.length_take, List.length_drop, List.length_cons] at hlen
  omega

/-- In front of a text there can be anything but a character of a name at once before the word. -/
theorem append_iff {front : List Char} :
    IsWord (front ++ cs) name (front.length + p) ↔ IsWord cs name p ∧
      ∀ c, p = 0 → front.getLast? = some c → isNamePart c = false := by
  constructor
  · rintro ⟨hname, hhere, hbefore, hafter⟩
    refine ⟨⟨hname, ?_, fun q c hq hc => ?_, fun c hc => ?_⟩, fun c hp hc => ?_⟩
    · rwa [List.drop_length_add_append] at hhere
    · refine hbefore (front.length + q) c (by omega) ?_
      rwa [List.getElem?_append_right (by omega), Nat.add_sub_cancel_left]
    · refine hafter c ?_
      rwa [Nat.add_assoc, List.getElem?_append_right (by omega), Nat.add_sub_cancel_left]
    · rw [List.getLast?_eq_getElem?] at hc
      obtain ⟨hlt, -⟩ := List.getElem?_eq_some_iff.1 hc
      refine hbefore (front.length - 1) c (by omega) ?_
      rwa [List.getElem?_append_left hlt]
  · rintro ⟨⟨hname, hhere, hbefore, hafter⟩, hlast⟩
    refine ⟨hname, ?_, fun q c hq hc => ?_, fun c hc => ?_⟩
    · rw [List.drop_length_add_append, hhere]
    · by_cases hlt : q < front.length
      · refine hlast c (by omega) ?_
        rw [List.getElem?_append_left hlt] at hc
        rw [List.getLast?_eq_getElem?, ← hc]
        congr 1
        omega
      · rw [List.getElem?_append_right (by omega)] at hc
        exact hbefore _ c (by omega) hc
    · rw [Nat.add_assoc, List.getElem?_append_right (by omega), Nat.add_sub_cancel_left] at hc
      exact hafter c hc

theorem isNameStart_head {c : Char} (h : IsWord (c :: cs) name 0) : isNameStart c = true := by
  obtain ⟨d, more, rfl, hd⟩ := exists_isNameStart h.isName
  have hhere := h.here
  simp only [List.drop_zero, List.length_cons, List.take_succ_cons, List.cons.injEq] at hhere
  rw [hhere.1, hd]

/-- A word at the beginning of a text is its first token. -/
theorem munch (h : IsWord cs name 0) : munch cs = some (.name name) := by
  have hsplit : cs = name ++ cs.drop name.length := by
    have hhere := h.here
    rw [List.drop_zero] at hhere
    conv_lhs => rw [← List.take_append_drop name.length cs, hhere]
  have hends : (Token.name name).EndsBefore (cs.drop name.length) := by
    rintro _ ⟨⟩ c more hc
    refine h.after c ?_
    rw [Nat.zero_add, ← List.head?_drop, hc, List.head?_cons]
  rw [hsplit]
  exact munch_chars_append (t := .name name) h.isName hends

end IsWord

/-- The first token is the word at the beginning of the text, if it is a name. -/
theorem Token.Leads.isWord_zero_iff {t : Token} {name cs rest : List Char} (h : t.Leads cs rest) :
    IsWord cs name 0 ↔ t = .name name := by
  constructor
  · intro hw
    have hm := h.munch
    rw [hw.munch] at hm
    exact (Option.some.inj hm).symm
  · rintro rfl
    refine ⟨h.valid, ?_, by omega, fun c hc => ?_⟩
    · simp [h.split, Token.chars]
    · rw [h.split, Token.chars, Nat.zero_add, List.getElem?_append_right (Nat.le_refl _),
        Nat.sub_self, ← List.head?_eq_getElem?] at hc
      obtain ⟨more, rfl⟩ := List.head?_eq_some_iff.1 hc
      exact h.endsBefore name rfl c more rfl

/-- No word begins inside a token. -/
theorem Token.Leads.not_isWord {t : Token} {name cs rest : List Char} {p : Nat}
    (h : t.Leads cs rest) (hp : p + 1 < t.chars.length) : ¬IsWord cs name (p + 1) := by
  intro hw
  have hinside : ∀ q, q < t.chars.length → cs[q]? = t.chars[q]? := fun q hq => by
    rw [h.split, List.getElem?_append_left hq]
  cases t with
  | plus | opening | closing => simp [Token.chars] at hp
  | arrow =>
    obtain ⟨c, more, hname, hc⟩ := exists_isNameStart hw.isName
    have hp0 : p = 0 := by
      simp only [Token.chars, List.length_cons, List.length_nil] at hp
      omega
    subst hp0
    have hhere := hw.here
    rw [h.split, hname] at hhere
    simp [Token.chars] at hhere
    obtain ⟨rfl, -⟩ := hhere
    exact absurd hc (by decide)
  | name text =>
    have hlt : p < text.length := Nat.lt_of_succ_lt hp
    have hpart := hw.before p text[p] rfl (by rw [hinside p hlt]; exact List.getElem?_eq_getElem hlt)
    rw [isNamePart_of_mem h.valid (List.getElem_mem hlt)] at hpart
    cases hpart

/-- A word is not at once after a name. -/
theorem Token.Leads.getLast_of_isWord {t : Token} {name cs rest : List Char} (h : t.Leads cs rest)
    (hw : IsWord rest name 0) {c : Char} (hc : t.chars.getLast? = some c) :
    isNamePart c = false := by
  cases t with
  | plus | arrow | opening | closing =>
    cases hc
    decide
  | name text =>
    cases rest with
    | nil => exact absurd hw.lt_length (Nat.not_lt_zero 0)
    | cons d more =>
      have hends := h.endsBefore text rfl d more rfl
      rw [isNamePart_of_isNameStart hw.isNameStart_head] at hends
      cases hends

/-- The name that a token is, with its offset. -/
def Located.name? : Located → Option (String × Int)
  | ⟨.name text, p⟩ => some (String.ofList text, p)
  | _ => none

theorem Located.name?_eq_some_iff {l : Located} {name : String} {p : Int} :
    l.name? = some (name, p) ↔ l = ⟨.name name.toList, l.position⟩ ∧ (l.position : Int) = p := by
  obtain ⟨t, q⟩ := l
  cases t with
  | name text =>
    have htext : text = name.toList ↔ String.ofList text = name := by
      rw [← String.ofList_inj, String.ofList_toList]
    simp [name?, htext]
  | plus | arrow | opening | closing => simp [name?]

namespace Laid

theorem le_position {p : Nat} {cs : List Char} {ls : List Located} (h : Laid p cs ls) :
    ∀ l ∈ ls, p ≤ l.position := by
  induction h with
  | nil p => simp
  | skip _ _ ih => exact fun l hl => Nat.le_of_succ_le (ih l hl)
  | token _ _ ih =>
    intro l hl
    rcases List.mem_cons.1 hl with rfl | hl
    · exact Nat.le_refl _
    · exact (Nat.le_add_right _ _).trans (ih l hl)

theorem pairwise {p : Nat} {cs : List Char} {ls : List Located} (h : Laid p cs ls) :
    ls.Pairwise fun a b => a.position < b.position := by
  induction h with
  | nil p => exact .nil
  | skip _ _ ih => exact ih
  | @token p t cs rest ls ht hrest ih =>
    refine List.pairwise_cons.2 ⟨fun l hl => ?_, ih⟩
    have hle := hrest.le_position l hl
    obtain ⟨c, more, hc, -⟩ := ht.valid.chars_eq_cons
    rw [hc, List.length_cons] at hle
    change p < l.position
    omega

/-- The names among the tokens are the words of the text. -/
theorem mem_iff_isWord {p : Nat} {cs : List Char} {ls : List Located} (h : Laid p cs ls)
    (name : List Char) (q : Nat) : ⟨.name name, p + q⟩ ∈ ls ↔ IsWord cs name q := by
  -- A word is the first token, or begins after it, since none begins inside a token.
  induction h generalizing q with
  | nil p =>
    have hout : ¬IsWord [] name q := fun hw => absurd hw.lt_length (Nat.not_lt_zero q)
    simp [hout]
  | @skip p c cs ls hc hcs ih =>
    cases q with
    | zero =>
      have hleft : ⟨.name name, p⟩ ∉ ls := fun hmem => by
        have hle := hcs.le_position _ hmem
        exact absurd hle (Nat.not_succ_le_self p)
      have hright : ¬IsWord (c :: cs) name 0 := fun hw => by
        have hpart := isNamePart_of_isNameStart hw.isNameStart_head
        rw [isNamePart_of_isSkipped hc] at hpart
        cases hpart
      exact iff_of_false hleft hright
    | succ q =>
      have hadd : q + 1 = [c].length + q := Nat.add_comm q 1
      have hblank : ∀ d, q = 0 → [c].getLast? = some d → isNamePart d = false := by
        rintro d - hd
        cases hd
        exact isNamePart_of_isSkipped hc
      rw [← Nat.add_assoc, Nat.add_right_comm, ih q, hadd, ← List.singleton_append,
        IsWord.append_iff, and_iff_left hblank]
  | @token p t cs rest ls ht hrest ih =>
    obtain ⟨c, more, hchars, -⟩ := ht.valid.chars_eq_cons
    have hpos : 0 < t.chars.length := by simp [hchars]
    have hafter : q < t.chars.length → ⟨.name name, p + q⟩ ∉ ls := fun hq hmem => by
      have hle := hrest.le_position _ hmem
      change p + t.chars.length ≤ p + q at hle
      omega
    rcases Nat.lt_or_ge q t.chars.length with hq | hq
    · cases q with
      | zero =>
        rw [List.mem_cons, or_iff_left (hafter hq), ht.isWord_zero_iff]
        simp [eq_comm]
      | succ q =>
        refine iff_of_false ?_ (ht.not_isWord hq)
        simpa using hafter hq
    · obtain ⟨q, rfl⟩ := Nat.exists_eq_add_of_le hq
      have hne : (⟨.name name, p + (t.chars.length + q)⟩ : Located) ≠ ⟨t, p⟩ := by
        intro h
        have hp := congrArg Located.position h
        change p + (t.chars.length + q) = p at hp
        omega
      have hlast : IsWord rest name q →
          ∀ c, q = 0 → t.chars.getLast? = some c → isNamePart c = false := by
        rintro hw c rfl hc
        exact ht.getLast_of_isWord hw hc
      rw [List.mem_cons, or_iff_right hne, ← Nat.add_assoc, ih q, ht.split, IsWord.append_iff,
        and_iff_left_of_imp hlast]

end Laid

/-! ## The names that are read -/

/-- The identifiers of a level, in the order in which they were read. -/
def Level.identifiers (l : Level) : List (String × Int) :=
  Expr.identifiersAll l.steps.reverse ++ Expr.identifiersAll l.members.reverse

/-- The identifiers of all levels of a reader, in the order in which they were read. -/
def Reader.identifiers (r : Reader) : List (String × Int) :=
  r.outer.reverse.flatMap Level.identifiers ++ r.level.identifiers

namespace Level

@[simp] theorem identifiers_empty : Level.empty.identifiers = [] := rfl

@[simp] theorem identifiers_addMember (l : Level) (e : Expr) :
    (l.addMember e).identifiers = l.identifiers ++ e.identifiers := by
  simp [identifiers, addMember, Expr.identifiersAll_append, Expr.identifiersAll_singleton]

@[simp] theorem identifiers_endGroup (l : Level) : l.endGroup.identifiers = l.identifiers := by
  simp [identifiers, endGroup, Expr.identifiersAll_append, Expr.identifiers_ofMembers,
    Expr.identifiersAll]

@[simp] theorem identifiers_expr (l : Level) : l.expr.identifiers = l.identifiers := by
  rw [← identifiers_endGroup, expr, Expr.identifiers_ofSteps]
  simp [identifiers, endGroup, Expr.identifiersAll]

end Level

/-- A token adds the name that it is, and no token but a name changes what was read. -/
theorem Reader.identifiers_step {r next : Reader} {l : Located} (h : r.step l = some next) :
    next.identifiers = r.identifiers ++ l.name?.toList := by
  obtain ⟨outer, level, complete⟩ := r
  obtain ⟨token, p⟩ := l
  cases complete with
  | false =>
    cases token with
    | name text =>
      cases h
      simp [identifiers, Located.name?, Expr.identifiers]
    | opening =>
      cases h
      simp [identifiers, Located.name?]
    | plus | arrow | closing => cases h
  | true =>
    cases token with
    | plus | arrow =>
      cases h
      simp [identifiers, Located.name?]
    | closing =>
      cases outer with
      | nil => cases h
      | cons around outer =>
        cases h
        simp [identifiers, Located.name?]
    | name text | opening => cases h

theorem Reader.identifiers_run {r last : Reader} {ls : List Located} (h : r.run ls = .ok last) :
    last.identifiers = r.identifiers ++ ls.filterMap Located.name? := by
  induction ls generalizing r with
  | nil =>
    cases h
    simp
  | cons l ls ih =>
    simp only [Reader.run] at h
    cases hs : r.step l with
    | none => rw [hs] at h; cases h
    | some next =>
      rw [hs] at h
      rw [ih h, identifiers_step hs, List.append_assoc]
      congr 1
      cases hl : l.name? <;> simp [hl]

theorem Reader.identifiers_result {r : Reader} {e : Expr} (h : r.result? = some e) :
    e.identifiers = r.identifiers := by
  obtain ⟨outer, level, complete⟩ := r
  cases complete with
  | false => cases h
  | true =>
    cases outer with
    | cons _ _ => cases h
    | nil =>
      cases h
      simp [identifiers]

/-- The identifiers of a tree that was read are the names among the tokens of the text, in order and
with their offsets: the words of the text, each once. -/
theorem identifiers_exact {text : String} {e : Expr} (h : parse text = .ok e) :
    (∃ ls, Laid 0 text.toList ls) ∧
    (∀ ls, Laid 0 text.toList ls → e.identifiers = ls.filterMap Located.name?) ∧
    e.identifiers.Pairwise (fun a b => a.2 < b.2) ∧
    ∀ name p, (name, p) ∈ e.identifiers ↔ ∃ q : Nat, p = q ∧ IsWord text.toList name.toList q := by
  obtain ⟨ls, q, r, hscan, hr, he⟩ := read_eq_ok_iff.1 (parse_eq_ok_iff.1 h)
  have hlaid : Laid 0 text.toList ls := laid_iff_scan.2 ⟨q, hscan⟩
  have hnames : e.identifiers = ls.filterMap Located.name? := by
    rw [Reader.identifiers_result he, Reader.identifiers_run hr]
    rfl
  refine ⟨⟨ls, hlaid⟩, fun ls' hls' => ?_, ?_, fun name p => ?_⟩
  · obtain ⟨q', hscan'⟩ := laid_iff_scan.1 hls'
    rw [hscan] at hscan'
    cases hscan'
    exact hnames
  · rw [hnames, List.pairwise_filterMap]
    refine hlaid.pairwise.imp fun hab x hx y hy => ?_
    obtain ⟨-, hxp⟩ := Located.name?_eq_some_iff.1 hx
    obtain ⟨-, hyp⟩ := Located.name?_eq_some_iff.1 hy
    omega
  · rw [hnames, List.mem_filterMap]
    constructor
    · rintro ⟨l, hl, hname⟩
      obtain ⟨hl', hp⟩ := Located.name?_eq_some_iff.1 hname
      refine ⟨l.position, hp.symm, (hlaid.mem_iff_isWord _ _).1 ?_⟩
      rw [Nat.zero_add, ← hl']
      exact hl
    · rintro ⟨q, rfl, hw⟩
      have hmem := (hlaid.mem_iff_isWord _ _).2 hw
      rw [Nat.zero_add] at hmem
      exact ⟨_, hmem, Located.name?_eq_some_iff.2 ⟨rfl, rfl⟩⟩

/-- Names at once after an operator and in more parentheses than are needed. -/
theorem identifiers_exact_nested :
    let text := " a1|>((b) + _c)"
    let e := Expr.chain [.identifier "a1" 1, .group [.identifier "b" 7, .identifier "_c" 12]]
    parse text = .ok e ∧ (∃ ls, Laid 0 text.toList ls) ∧
      e.identifiers.Pairwise (fun a b => a.2 < b.2) ∧ IsWord text.toList "_c".toList 12 ∧
      ¬IsWord text.toList "c".toList 13 := by
  intro text e
  have hparse : parse text = .ok e := by cbv
  obtain ⟨hlaid, -, hincreasing, hwords⟩ := identifiers_exact hparse
  refine ⟨hparse, hlaid, hincreasing, ?_, fun hw => ?_⟩
  · obtain ⟨q, hq, hw⟩ := (hwords "_c" 12).1 (by decide)
    obtain rfl : q = 12 := by omega
    exact hw
  · exact absurd ((hwords "c" 13).2 ⟨13, rfl, hw⟩) (by decide)

end ColumnFlow.Expression
