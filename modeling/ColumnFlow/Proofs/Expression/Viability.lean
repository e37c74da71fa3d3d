import ColumnFlow.Proofs.Expression.Reading

/-!
# Flaws stand where a text stops being the beginning of an expression

Which token a reader takes depends only on whether its last operand is complete and on how many
parentheses are open. From every such standing some text leads to a complete expression, so what was
read before a flaw is the beginning of one. A token that is refused is refused whatever follows it,
and a character that starts no token is in no expression at all.
-/
namespace ColumnFlow.Expression
open Text

/-- Whether the last operand is complete, and how many parentheses are open. -/
structure Standing where
  complete : Bool
  depth : Nat

namespace Standing

def start : Standing := ⟨false, 0⟩

def finish : Standing := ⟨true, 0⟩

/-- The standing after one more token, if it may stand there. -/
def advance : Standing → Token → Option Standing
  | ⟨false, depth⟩, .name _ => some ⟨true, depth⟩
  | ⟨false, depth⟩, .opening => some ⟨false, depth + 1⟩
  | ⟨true, depth⟩, .plus | ⟨true, depth⟩, .arrow => some ⟨false, depth⟩
  | ⟨true, depth + 1⟩, .closing => some ⟨true, depth⟩
  | _, _ => none

def after (s : Standing) (ts : List Token) : Option Standing := ts.foldlM advance s

theorem after_append (s : Standing) (ts us : List Token) :
    s.after (ts ++ us) = (s.after ts).bind fun next => next.after us := by
  simp only [after, List.foldlM_append]
  rfl

theorem after_cons (s : Standing) (t : Token) (ts : List Token) :
    s.after (t :: ts) = (s.advance t).bind fun next => next.after ts := by
  simp only [after, List.foldlM_cons]
  rfl

theorem after_replicate_closing (n : Nat) :
    (⟨true, n⟩ : Standing).after (List.replicate n .closing) = some finish := by
  induction n with
  | zero => rfl
  | succ n ih => simpa only [List.replicate_succ, after_cons, advance, Option.bind_some] using ih

theorem advance_name (s : Standing) (text text' : List Char) :
    s.advance (.name text) = s.advance (.name text') := by
  rcases s with ⟨_ | _, depth⟩ <;> rfl

end Standing

def Reader.standing (r : Reader) : Standing := ⟨r.complete, r.outer.length⟩

theorem Reader.standing_step (r : Reader) (l : Located) :
    (r.step l).map standing = r.standing.advance l.token := by
  obtain ⟨outer, level, complete⟩ := r
  obtain ⟨token, position⟩ := l
  cases complete <;> cases token <;> try rfl
  cases outer <;> rfl

theorem Reader.standing_run (r : Reader) (ls : List Located) :
    (r.run ls).toOption.map standing = r.standing.after (ls.map (·.token)) := by
  induction ls generalizing r with
  | nil => rfl
  | cons l ls ih =>
    rw [List.map_cons, Standing.after_cons, ← standing_step, run]
    cases r.step l with
    | none => rfl
    | some next => exact ih next

theorem Reader.result?_isSome_iff (r : Reader) :
    r.result?.isSome = true ↔ r.standing = .finish := by
  obtain ⟨outer, level, complete⟩ := r
  cases complete <;> cases outer <;> simp [result?, standing, Standing.finish]

theorem exists_read_iff {cs : List Char} :
    (∃ e, read cs = .ok e) ↔ ∃ ts, Lexes cs ts ∧ Standing.start.after ts = some .finish := by
  constructor
  · rintro ⟨e, he⟩
    obtain ⟨ls, q, r, hscan, hr, hres⟩ := read_eq_ok_iff.1 he
    refine ⟨_, lexes_iff_scan.2 ⟨ls, q, hscan, rfl⟩, ?_⟩
    have hrun := Reader.standing_run .start ls
    rw [hr] at hrun
    have hfinish := (Reader.result?_isSome_iff r).1 (by rw [hres]; rfl)
    rw [← hfinish]
    exact hrun.symm
  · rintro ⟨ts, hts, hafter⟩
    obtain ⟨ls, q, hscan, rfl⟩ := lexes_iff_scan.1 hts
    have hrun := Reader.standing_run .start ls
    cases hr : Reader.start.run ls with
    | error l =>
      rw [hr] at hrun
      rw [show Standing.start = Reader.start.standing from rfl, ← hrun] at hafter
      cases hafter
    | ok r =>
      rw [hr] at hrun
      rw [show Standing.start = Reader.start.standing from rfl, ← hrun] at hafter
      obtain ⟨e, he⟩ := Option.isSome_iff_exists.1
        ((Reader.result?_isSome_iff r).2 (Option.some.inj hafter))
      exact ⟨e, read_eq_ok_iff.2 ⟨ls, q, r, hscan, hr, he⟩⟩

theorem lexes_replicate_closing (n : Nat) :
    Lexes (List.replicate n ')') (List.replicate n .closing) := by
  induction n with
  | zero => exact .nil []
  | succ n ih => exact (Cuts.symbol .closing (by simp) _).trans ih

/-- From every standing some text, which goes on with no name, leads to the end of an expression. -/
theorem Standing.exists_completion (s : Standing) :
    ∃ cs ts, Lexes (' ' :: cs) ts ∧ s.after ts = some .finish := by
  obtain ⟨complete, depth⟩ := s
  have hclose := lexes_replicate_closing depth
  cases complete with
  | true => exact ⟨_, _, .skip (by decide) hclose, after_replicate_closing depth⟩
  | false =>
    have he : (Token.name ['a']).EndsBefore (List.replicate depth ')') := by
      intro _ _ c more hc
      cases depth with
      | zero => cases hc
      | succ depth => cases hc; decide
    have hv : (Token.name ['a']).Valid := rfl
    have hname := Cuts.chars hv he
    exact ⟨_, _, .skip (by decide) (hname.trans hclose), after_replicate_closing depth⟩

/-- What has been cut into tokens that may stand there is the beginning of an expression. -/
theorem exists_continuation {before rest : List Char} {ts : List Token} {s : Standing}
    (h : Cuts (before ++ rest) ts rest) (hs : Standing.start.after ts = some s) :
    ∃ after e, read (before ++ after) = .ok e := by
  obtain ⟨cs, us, hus, hfinish⟩ := s.exists_completion
  obtain ⟨before', hbefore, hcut⟩ := h.follow
  have heq : before = before' := List.append_cancel_right hbefore
  subst heq
  have hwhole := (hcut _ (.of_head (by decide) rest)).trans hus
  refine ⟨' ' :: cs, exists_read_iff.2 ⟨_, hwhole, ?_⟩⟩
  rw [Standing.after_append, hs, Option.bind_some, hfinish]

theorem munch_chars_append_advance {t : Token} (hv : t.Valid) (after : List Char) :
    ∃ u, munch (t.chars ++ after) = some u ∧ ∀ s : Standing, s.advance u = s.advance t := by
  cases t with
  | plus | arrow | opening | closing => exact ⟨_, rfl, fun _ => rfl⟩
  | name text =>
    cases text with
    | nil => simp [Token.Valid, isName] at hv
    | cons c cs =>
      simp only [Token.Valid, isName, Bool.and_eq_true] at hv
      exact ⟨_, munch_cons_of_isNameStart hv.1 _, fun s => s.advance_name _ _⟩

/-- No expression begins with a token where it may not stand. -/
theorem read_ne_of_refused {before rest more : List Char} {ts : List Token} {s : Standing}
    {t : Token} (h : Cuts (before ++ rest) ts rest) (hs : Standing.start.after ts = some s)
    (ht : t.Leads rest more) (hrefused : s.advance t = none) (after : List Char) (e : Expr) :
    read (before ++ (t.chars ++ after)) ≠ .ok e := by
  intro hread
  obtain ⟨us, hlex, hfinish⟩ := exists_read_iff.1 ⟨e, hread⟩
  obtain ⟨before', hbefore, hcut⟩ := h.follow
  have heq : before = before' := List.append_cancel_right hbefore
  subst heq
  have hfollows : Follows rest (t.chars ++ after) := by
    obtain ⟨c, cs, hc, -⟩ := ht.valid.chars_eq_cons
    intro d others hd _
    rw [hc] at hd
    cases hd
    exact ⟨cs ++ more, by rw [ht.split, hc]; rfl⟩
  obtain ⟨u, hu, hadvance⟩ := munch_chars_append_advance ht.valid after
  -- The token at the place of `t` is refused as `t` is, whatever comes after it.
  have hfirst := (hcut _ hfollows).trans (.token (Token.leads_of_munch hu) (.nil _))
  obtain ⟨vs, rfl⟩ := hfirst.prefix_of_lexes hlex
  rw [List.append_assoc, Standing.after_append, hs, Option.bind_some, List.singleton_append,
    Standing.after_cons, hadvance, hrefused] at hfinish
  cases hfinish

def upTo (text : String) (p : Nat) : String := String.ofList (text.toList.take p)

/-- What a problem says of a text at an offset. -/
def Blames (text : String) (p : Nat) : Problem → Prop
  | .empty => allBlank text.toList = true ∧ p = 0
  | .ending => p = text.length
  | .token tok => ∃ t rest, Token.Leads t (text.toList.drop p) rest ∧ tok = t.text ∧
      ∀ after e, parse (upTo text p ++ tok ++ after) ≠ .ok e
  | .character c => (∃ rest, text.toList.drop p = c :: rest) ∧ isSkipped c = false ∧
      ∀ t : Token, t.Valid → ¬t.chars <+: text.toList.drop p
  | .other _ => False

/-- The reader's standing wherever the tokens of a text are divided, and what is left there. -/
theorem exists_cut {cs : List Char} {ls ls' : List Located} {r : Reader}
    (h : (scan 0 cs).1 = ls ++ ls') (hr : Reader.start.run ls = .ok r) :
    ∃ before rest ts, cs = before ++ rest ∧ Cuts cs ts rest ∧
      Standing.start.after ts = some r.standing ∧
      (∀ c more, rest = c :: more → isSkipped c = false) ∧
      scan before.length rest = (ls', (scan 0 cs).2) := by
  obtain ⟨rest, q, hcut, hq, hhead, hscan⟩ := cuts_of_scan h
  obtain ⟨before, hbefore, -⟩ := hcut.follow
  refine ⟨before, rest, _, hbefore, hcut, ?_, hhead, ?_⟩
  · have hrun := Reader.standing_run .start ls
    rw [hr] at hrun
    exact hrun.symm
  · have hlen := congrArg List.length hbefore
    rw [List.length_append] at hlen
    have hqlen : q = before.length := by omega
    rw [← hqlen, hscan]

/-- What a flaw of a text says of the characters before it and of those that are left. -/
def Flaw.Splits (f : Flaw) (before rest : List Char) (s : Standing) : Prop :=
  f.position = before.length ∧
    ((∃ t more, Token.Leads t rest more ∧ s.advance t = none ∧ f.problem = .token t.text) ∨
      (∃ c more, rest = c :: more ∧ isSkipped c = false ∧ munch rest = none ∧
        f.problem = .character c) ∨
      (rest = [] ∧ f.problem = .ending))

theorem exists_splits {cs : List Char} {f : Flaw} (h : read cs = .error f)
    (hb : allBlank cs = false) : ∃ before rest ts s, cs = before ++ rest ∧ Cuts cs ts rest ∧
      Standing.start.after ts = some s ∧ f.Splits before rest s := by
  unfold read at h
  rw [if_neg (by simp [hb])] at h
  rcases hscan : scan 0 cs with ⟨ls, ending⟩
  simp only [hscan] at h
  cases hr : Reader.start.run ls with
  | error l =>
    simp only [hr] at h
    cases h
    obtain ⟨ls, ls', r, rfl, hrun, hstep⟩ := Reader.run_error hr
    obtain ⟨before, rest, ts, hcs, hcut, hs, hhead, hrest⟩ := exists_cut (by rw [hscan]) hrun
    refine ⟨before, rest, ts, _, hcs, hcut, hs, ?_⟩
    have hrefused := Reader.standing_step r l
    rw [hstep] at hrefused
    cases rest with
    | nil => rw [scan_nil] at hrest; cases hrest
    | cons c more =>
      have hc := hhead c more rfl
      cases hm : munch (c :: more) with
      | none => rw [scan_of_munch_eq_none hc hm] at hrest; cases hrest
      | some t =>
        have ht := Token.leads_of_munch hm
        rw [scan_of_leads ht] at hrest
        obtain ⟨rfl, -⟩ := List.cons.inj (Prod.mk.inj hrest).1
        exact ⟨rfl, .inl ⟨t, _, ht, hrefused.symm, rfl⟩⟩
  | ok r =>
    simp only [hr] at h
    obtain ⟨before, rest, ts, hcs, hcut, hs, hhead, hrest⟩ :=
      exists_cut (by rw [hscan, List.append_nil]) hr
    refine ⟨before, rest, ts, _, hcs, hcut, hs, ?_⟩
    rw [hscan] at hrest
    cases rest with
    | nil =>
      rw [scan_nil] at hrest
      obtain ⟨-, rfl⟩ := Prod.mk.inj hrest
      simp only at h
      cases he : r.result? with
      | some e => simp [he] at h
      | none =>
        simp only [he] at h
        cases h
        exact ⟨rfl, .inr (.inr ⟨rfl, rfl⟩)⟩
    | cons c more =>
      have hc := hhead c more rfl
      cases hm : munch (c :: more) with
      | some t => rw [scan_of_leads (Token.leads_of_munch hm)] at hrest; cases hrest
      | none =>
        rw [scan_of_munch_eq_none hc hm] at hrest
        obtain ⟨-, rfl⟩ := Prod.mk.inj hrest
        cases h
        exact ⟨rfl, .inr (.inl ⟨c, more, rfl, hc, hm, rfl⟩)⟩

/-- A text that is not read is refused with a flaw of that text: what stands before its place is the
beginning of an expression, and the problem is what its place says it is. -/
theorem parse_error_points (text : String) (f : Failure) (h : parse text = .error f) :
    ∃ (problem : Problem) (p : Nat), f = .malformed problem text (some p) ∧ p ≤ text.length ∧
      (if allBlank text.toList then p = 0
        else ∃ after e, parse (upTo text p ++ after) = .ok e) ∧
      Blames text p problem := by
  unfold parse at h
  cases hread : read text.toList with
  | ok e => rw [hread] at h; cases h
  | error flaw =>
    rw [hread] at h
    cases h
    refine ⟨flaw.problem, flaw.position, rfl, ?_⟩
    cases hb : allBlank text.toList with
    | true =>
      unfold read at hread
      rw [if_pos hb] at hread
      cases hread
      exact ⟨Nat.zero_le _, by simp, hb, rfl⟩
    | false =>
      obtain ⟨before, rest, ts, s, hcs, hcut, hs, hp, hwhy⟩ := exists_splits hread hb
      have hup : text.toList.take flaw.position = before := by
        rw [hcs, hp, List.take_left]
      have hdrop : text.toList.drop flaw.position = rest := by
        rw [hcs, hp, List.drop_left]
      have hlen : text.length = before.length + rest.length := by
        rw [← String.length_toList, hcs, List.length_append]
      rw [hcs] at hcut
      refine ⟨by omega, ?_, ?_⟩
      · obtain ⟨after, e, he⟩ := exists_continuation hcut hs
        refine ⟨String.ofList after, e, parse_eq_ok_iff.2 ?_⟩
        simpa [upTo, hup] using he
      · rcases hwhy with ⟨t, more, ht, hrefused, hproblem⟩ | ⟨c, more, hc, hskip, hm, hproblem⟩ |
          ⟨hnil, hproblem⟩
        · rw [hproblem]
          refine ⟨t, more, hdrop ▸ ht, rfl, fun after e he => ?_⟩
          refine read_ne_of_refused hcut hs ht hrefused after.toList e ?_
          have he' := parse_eq_ok_iff.1 he
          simpa [upTo, hup, Token.text] using he'
        · rw [hproblem]
          refine ⟨⟨more, by rw [hdrop, hc]⟩, hskip, ?_⟩
          rw [hdrop]
          exact munch_eq_none_iff.1 hm
        · rw [hproblem]
          change flaw.position = text.length
          rw [hlen, hnil, hp]
          rfl

/-- A name after a complete operand: the parenthesis may still be closed before it, and nothing that
follows it makes the text an expression. -/
theorem parse_error_points_name :
    parse "(a |> b cd" = .error (.malformed (.token "cd") "(a |> b cd" (some 8)) ∧
      (∃ after e, parse ("(a |> b " ++ after) = .ok e) ∧
      ∀ after e, parse ("(a |> b cd" ++ after) ≠ .ok e := by
  have h : parse "(a |> b cd" = .error (.malformed (.token "cd") "(a |> b cd" (some 8)) := by cbv
  obtain ⟨problem, p, heq, -, hviable, hblames⟩ := parse_error_points _ _ h
  injection heq with hproblem _ hp
  have hp8 : p = 8 := by
    injection hp with hp
    omega
  subst hproblem hp8
  rw [if_neg (by decide)] at hviable
  obtain ⟨t, rest, -, -, hrefused⟩ := hblames
  exact ⟨h, hviable, hrefused⟩

end ColumnFlow.Expression
