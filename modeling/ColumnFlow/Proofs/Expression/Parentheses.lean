import ColumnFlow.Proofs.Expression.RoundTrip

/-!
# The fewest parentheses

A name has no parenthesis in it, so the opening parentheses of a text are its opening tokens. Every
derivation of a tree spends at least as many of them as the text written for the tree: each rule of
the grammar adds no fewer than the writing of its operands does, and the rule for parentheses, where
the two could differ, adds one.
-/
namespace ColumnFlow.Expression
open Text ColumnFlow.Expr

/-! ## Opening parentheses of a text -/

theorem Token.Valid.count_chars {t : Token} (hv : t.Valid) :
    t.chars.count '(' = [t].count .opening := by
  cases t with
  | plus | arrow | opening | closing => decide
  | name text =>
    have hparts : ∀ c ∈ text, isNamePart c = true := by
      cases text with
      | nil => simp
      | cons c cs =>
        simp only [Valid, isName, Bool.and_eq_true, List.all_eq_true] at hv
        intro d hd
        rcases List.mem_cons.1 hd with rfl | hd
        · have hstart := hv.1
          simp only [isNameStart, isNamePart, Char.isAlphanum, Bool.or_eq_true] at hstart ⊢
          tauto
        · exact hv.2 d hd
    have hout : '(' ∉ text := fun h => absurd (hparts _ h) (by decide)
    simp [chars, List.count_eq_zero.2 hout]

theorem Cuts.count_opening {cs rest : List Char} {ts : List Token} (h : Cuts cs ts rest) :
    cs.count '(' = ts.count .opening + rest.count '(' := by
  induction h with
  | nil cs => simp
  | @skip c cs rest ts hc _ ih =>
    have hne : c ≠ '(' := by
      rintro rfl
      exact absurd hc (by decide)
    rw [List.count_cons_of_ne hne, ih]
  | @token t cs more rest ts ht _ ih =>
    rw [ht.split, List.count_append, ih, ht.valid.count_chars, ← Nat.add_assoc, ← List.count_append,
      List.singleton_append]

theorem Lexes.count_opening {cs : List Char} {ts : List Token} (h : Lexes cs ts) :
    cs.count '(' = ts.count .opening := by
  have hcut := Cuts.count_opening h
  simpa using hcut

/-! ## Opening parentheses of a written tree -/

theorem count_separated {separator : List Char} (hs : separator.count '(' = 0)
    (parts : List (List Char)) :
    (separated separator parts).count '(' = (parts.map (List.count '(')).sum := by
  induction parts with
  | nil => rfl
  | cons part rest ih =>
    cases rest with
    | nil => simp [separated]
    | cons next rest =>
      rw [separated, List.count_append, List.count_append, hs, ih, List.map_cons, List.sum_cons]
      · rfl
      · simp

theorem count_enclosed (cs : List Char) : (enclosed cs).count '(' = cs.count '(' + 1 := by
  simp [enclosed]

/-- The parentheses that are written in the operands of a phrase and around them. -/
def Phrase.written : Phrase → List Expr → Nat
  | .chain, es => ((stepSources es).map (List.count '(')).sum
  | _, es => ((memberSources es).map (List.count '(')).sum

theorem count_chain (es : List Expr) :
    (sourceChars (.chain es)).count '(' = Phrase.chain.written es := by
  rw [sourceChars, count_separated (by decide)]
  rfl

theorem count_group (es : List Expr) :
    (sourceChars (.group es)).count '(' = Phrase.group.written es := by
  rw [sourceChars, count_separated (by decide)]
  rfl

theorem written_step (e : Expr) (es : List Expr) : Phrase.chain.written (e :: es) =
    Phrase.chain.written [e] + Phrase.chain.written es := by
  simp [Phrase.written, stepSources]

theorem written_member (e : Expr) (es : List Expr) : Phrase.group.written (e :: es) =
    Phrase.group.written [e] + Phrase.group.written es := by
  simp [Phrase.written, memberSources]

/-- A chain keeps its parentheses as an operand of a chain, and nothing else gets any there. -/
theorem written_chain_singleton (e : Expr) : Phrase.chain.written [e] =
    e.sourceChars.count '(' + if e.isChain then 1 else 0 := by
  cases h : e.isChain <;> simp [Phrase.written, stepSources, h, count_enclosed]

/-- An identifier gets no parentheses as an operand of a group, and everything else does. -/
theorem written_group_singleton (e : Expr) : Phrase.group.written [e] =
    e.sourceChars.count '(' + if e.isIdentifier then 0 else 1 := by
  cases h : e.isIdentifier <;> simp [Phrase.written, memberSources, h, count_enclosed]

/-! ## Regrouping -/

theorem count_ofSteps_le (es : List Expr) :
    (ofSteps es).sourceChars.count '(' ≤ Phrase.chain.written es := by
  rcases es with _ | ⟨x, _ | ⟨y, es⟩⟩
  · exact (count_chain []).le
  · rw [written_chain_singleton]
    exact Nat.le_add_right _ _
  · exact (count_chain _).le

/-- A chain in parentheses is written with one more pair than its operands at most. -/
theorem written_ofSteps_le (es : List Expr) :
    Phrase.group.written [ofSteps es] ≤ Phrase.chain.written es + 1 := by
  have hle := count_ofSteps_le es
  rw [written_group_singleton]
  split <;> omega

/-- A group needs no parentheses of its own as an operand of a chain. -/
theorem written_ofMembers_le (es : List Expr) :
    Phrase.chain.written [ofMembers es] ≤ Phrase.group.written es := by
  rcases es with _ | ⟨x, _ | ⟨y, es⟩⟩
  · decide
  · change Phrase.chain.written [x] ≤ _
    rw [written_chain_singleton, written_group_singleton]
    -- what gets parentheses in a chain is a chain, and no chain is an identifier
    cases x <;> simp [isChain, isIdentifier]
  · change Phrase.chain.written [.group (x :: y :: es)] ≤ _
    rw [written_chain_singleton, count_group]
    exact Nat.le_refl _

theorem Derives.written_le {phrase : Phrase} {ts : List Token} {es : List Expr}
    (h : Derives phrase ts es) (hv : ∀ t ∈ ts, t.Valid) :
    phrase.written es ≤ ts.count .opening := by
  induction h with
  | name text position =>
    have hcount := (hv (.name text) (by simp)).count_chars
    simp only [Token.chars] at hcount
    change Phrase.group.written _ ≤ _
    rw [written_group_singleton, sourceChars, String.toList_ofList, hcount]
    simp [isIdentifier]
  | @enclosed ts es _ ih =>
    have hinside := ih fun t ht => hv t (by simp [ht])
    have hle := written_ofSteps_le es
    change Phrase.group.written _ ≤ _
    rw [List.count_cons_self, List.count_append]
    omega
  | lastMember _ ih => exact ih hv
  | @member ts us e es _ _ ih ih' =>
    have hfirst := ih fun t ht => hv t (by simp [ht])
    have hothers := ih' fun t ht => hv t (by simp [ht])
    change Phrase.group.written _ ≤ _ at hfirst
    rw [written_member, List.count_append, List.count_cons_of_ne (by simp)]
    omega
  | @lastStep ts es _ ih =>
    exact (written_ofMembers_le es).trans (ih hv)
  | @step ts us es fs _ _ ih ih' =>
    have hfirst := ih fun t ht => hv t (by simp [ht])
    have hothers := ih' fun t ht => hv t (by simp [ht])
    have hle := written_ofMembers_le es
    rw [written_step, List.count_append, List.count_cons_of_ne (by simp)]
    omega

/-! ## Positions are not written -/

theorem stepSources_unplaced {xs : List Expr}
    (h : ∀ x ∈ xs, x.unplaced.sourceChars = x.sourceChars) :
    stepSources (xs.map unplaced) = stepSources xs := by
  induction xs with
  | nil => rfl
  | cons x xs ih =>
    have hkind : x.unplaced.isChain = x.isChain := by cases x <;> simp [unplaced, isChain]
    rw [List.map_cons, stepSources, stepSources, hkind, h x (by simp),
      ih fun y hy => h y (by simp [hy])]

theorem memberSources_unplaced {xs : List Expr}
    (h : ∀ x ∈ xs, x.unplaced.sourceChars = x.sourceChars) :
    memberSources (xs.map unplaced) = memberSources xs := by
  induction xs with
  | nil => rfl
  | cons x xs ih =>
    have hkind : x.unplaced.isIdentifier = x.isIdentifier := by
      cases x <;> simp [unplaced, isIdentifier]
    rw [List.map_cons, memberSources, memberSources, hkind, h x (by simp),
      ih fun y hy => h y (by simp [hy])]

theorem sourceChars_unplaced (e : Expr) : e.unplaced.sourceChars = e.sourceChars := by
  induction e using Expr.induction with
  | identifier name position => rw [unplaced, sourceChars, sourceChars]
  | chain xs ih => rw [unplaced, sourceChars, sourceChars, stepSources_unplaced ih]
  | group xs ih | other xs ih =>
    rw [unplaced, sourceChars, sourceChars, memberSources_unplaced ih]

theorem source_eq_of_same {e f : Expr} (h : e.same f = true) : e.source = f.source := by
  rw [source, source, ← sourceChars_unplaced e, (same_iff e f).1 h, sourceChars_unplaced]

/-! ## The text with the fewest -/

theorem count_source_le {text : String} {e : Expr} (h : parse text = .ok e) :
    e.source.toList.count '(' ≤ text.toList.count '(' := by
  obtain ⟨ls, q, r, hscan, hr, he⟩ := read_eq_ok_iff.1 (parse_eq_ok_iff.1 h)
  have hlex : Lexes text.toList (ls.map (·.token)) := lexes_iff_scan.2 ⟨ls, q, hscan, rfl⟩
  obtain ⟨es, hes, rfl⟩ := derives_of_run hr he
  calc (ofSteps es).source.toList.count '('
      = (ofSteps es).sourceChars.count '(' := by rw [source, String.toList_ofList]
    _ ≤ Phrase.chain.written es := count_ofSteps_le es
    _ ≤ (ls.map (·.token)).count .opening := hes.written_le (Cuts.valid hlex)
    _ = text.toList.count '(' := hlex.count_opening.symm

/-- Among the texts that are read as a tree, the text written for it has the fewest parentheses. -/
theorem source_isLeast_parentheses {e : Expr} (he : e.WellFormed) :
    IsLeast {n | ∃ text f, parse text = .ok f ∧ f.same e = true ∧ text.toList.count '(' = n}
      (e.source.toList.count '(') := by
  refine ⟨?_, ?_⟩
  · obtain ⟨f, hf, hsame⟩ := parse_source he
    exact ⟨e.source, f, hf, hsame, rfl⟩
  · rintro n ⟨text, f, hf, hsame, rfl⟩
    rw [← source_eq_of_same hsame]
    exact count_source_le hf

/-- The parentheses around a group in a group and around a chain in a chain are needed, those around
a group in a chain are not. -/
theorem source_isLeast_parentheses_nested :
    let e := Expr.chain [.group [.identifier "a" 2, .group [.identifier "b" 7, .identifier "c" 11]],
      .chain [.identifier "d" 20, .identifier "e" 26]]
    e.WellFormed ∧ parse "((a + (b + c))) |> (d |> (e))" = .ok e ∧
      e.source = "a + (b + c) |> (d |> e)" ∧
      IsLeast {n | ∃ text f, parse text = .ok f ∧ f.same e = true ∧ text.toList.count '(' = n}
        2 := by
  intro e
  have hparse : parse "((a + (b + c))) |> (d |> (e))" = .ok e := by cbv
  have hsource : e.source = "a + (b + c) |> (d |> e)" := by cbv
  have hcount : e.source.toList.count '(' = 2 := by rw [hsource]; decide
  have hwf := wellFormed_of_parse hparse
  have hleast := source_isLeast_parentheses hwf
  rw [hcount] at hleast
  exact ⟨hwf, hparse, hsource, hleast⟩

end ColumnFlow.Expression
