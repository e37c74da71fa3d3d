import ColumnFlow.Expression.Parser
import ColumnFlow.Proofs.Expression.Lexing
import ColumnFlow.Proofs.Expression.Tree

/-!
# The grammar of expressions

A chain is one or more groups with `|>` between them, a group is one or more operands with `+`
between them, and an operand is a name or a chain in parentheses. `Derives` is this grammar, as a
relation between tokens and trees; positions are free in it. The reader accepts exactly the
derivable token lists and builds their trees, so that each token list has at most one.
-/
namespace ColumnFlow.Expression

inductive Phrase where
  | chain
  | group
  | operand

/-- The tokens form the phrase, and the trees are its operands; a phrase `operand` has one. -/
inductive Derives : Phrase → List Token → List Expr → Prop
  | name (text : List Char) (position : Int) :
      Derives .operand [.name text] [.identifier (String.ofList text) position]
  | enclosed {ts : List Token} {es : List Expr} :
      Derives .chain ts es → Derives .operand (.opening :: (ts ++ [.closing])) [Expr.ofSteps es]
  | lastMember {ts : List Token} {e : Expr} :
      Derives .operand ts [e] → Derives .group ts [e]
  | member {ts us : List Token} {e : Expr} {es : List Expr} :
      Derives .operand ts [e] → Derives .group us es →
        Derives .group (ts ++ .plus :: us) (e :: es)
  | lastStep {ts : List Token} {es : List Expr} :
      Derives .group ts es → Derives .chain ts [Expr.ofMembers es]
  | step {ts us : List Token} {es fs : List Expr} :
      Derives .group ts es → Derives .chain us fs →
        Derives .chain (ts ++ .arrow :: us) (Expr.ofMembers es :: fs)

/-- The tokens form an expression with the tree, positions aside. -/
def Forms (ts : List Token) (e : Expr) : Prop :=
  ∃ es, Derives .chain ts es ∧ e.same (Expr.ofSteps es) = true

namespace Reader

theorem run_append (r : Reader) (ls ls' : List Located) :
    r.run (ls ++ ls') = (r.run ls).bind fun next => next.run ls' := by
  induction ls generalizing r with
  | nil => rfl
  | cons l ls ih =>
    simp only [List.cons_append, run]
    cases r.step l with
    | none => rfl
    | some next => exact ih next

theorem run_error {r : Reader} {ls : List Located} {l : Located} (h : r.run ls = .error l) :
    ∃ before after next, ls = before ++ l :: after ∧ r.run before = .ok next ∧
      next.step l = none := by
  induction ls generalizing r with
  | nil => cases h
  | cons k ls ih =>
    simp only [run] at h
    cases hs : r.step k with
    | none =>
      rw [hs] at h
      cases h
      exact ⟨[], ls, r, rfl, rfl, hs⟩
    | some next =>
      rw [hs] at h
      obtain ⟨before, after, last, rfl, hrun, hstep⟩ := ih h
      refine ⟨k :: before, after, last, rfl, ?_, hstep⟩
      simp only [run, hs, hrun]

end Reader

/-- What the reader does with the tokens of a phrase: it pushes the operands. -/
def Phrase.Pushes : Phrase → List Located → List Expr → Prop
  | .chain, ls, es => ∀ outer steps, ∃ l : Level, l.endGroup.steps = es.reverse ++ steps ∧
      Reader.run ⟨outer, ⟨steps, []⟩, false⟩ ls = .ok ⟨outer, l, true⟩
  | _, ls, es => ∀ outer steps members,
      Reader.run ⟨outer, ⟨steps, members⟩, false⟩ ls =
        .ok ⟨outer, ⟨steps, es.reverse ++ members⟩, true⟩

/-- The reader takes the tokens of a phrase, wherever they stand in a text. -/
theorem Derives.pushes {phrase : Phrase} {ts : List Token} {es : List Expr}
    (h : Derives phrase ts es) (ls : List Located) (hls : ls.map (·.token) = ts) :
    ∃ es', Expr.sameAll es' es = true ∧ phrase.Pushes ls es' := by
  -- `Pushes` holds for all levels around a phrase, so that what is in parentheses is one more case.
  induction h generalizing ls with
  | name text position =>
    obtain ⟨l, rfl, hl⟩ := List.map_eq_singleton_iff.1 hls
    refine ⟨[.identifier (String.ofList text) l.position], ?_, fun outer steps members => ?_⟩
    · simp [Expr.sameAll, Expr.same]
    · simp [Reader.run, Reader.step, hl, Level.addMember]
  | @enclosed ts es _ ih =>
    obtain ⟨l, more, rfl, hl, hmore⟩ := List.map_eq_cons_iff.1 hls
    obtain ⟨inside, last, rfl, hinside, hlast⟩ := List.map_eq_append_iff.1 hmore
    obtain ⟨k, rfl, hk⟩ := List.map_eq_singleton_iff.1 hlast
    obtain ⟨es', hsame, hpush⟩ := ih inside hinside
    refine ⟨[Expr.ofSteps es'], ?_, fun outer steps members => ?_⟩
    · simp [Expr.sameAll, Expr.same_ofSteps hsame]
    · obtain ⟨inner, hinner, hrun⟩ := hpush (⟨steps, members⟩ :: outer) []
      have hexpr : inner.expr = Expr.ofSteps es' := by simp [Level.expr, hinner]
      simp only [Reader.run, Reader.step, hl, Level.empty, Reader.run_append, hrun, Except.bind,
        hk, Level.addMember, hexpr]
      rfl
  | lastMember _ ih => exact ih ls hls
  | @member ts us e es _ _ ih ih' =>
    obtain ⟨left, more, rfl, hleft, hmore⟩ := List.map_eq_append_iff.1 hls
    obtain ⟨k, right, rfl, hk, hright⟩ := List.map_eq_cons_iff.1 hmore
    obtain ⟨fs, hfs, hpush⟩ := ih left hleft
    obtain ⟨es', hes, hpush'⟩ := ih' right hright
    have hone : ∃ f, fs = [f] := by
      cases fs with
      | nil => simp [Expr.sameAll] at hfs
      | cons f fs => cases fs <;> simp_all [Expr.sameAll]
    obtain ⟨f, rfl⟩ := hone
    refine ⟨f :: es', ?_, fun outer steps members => ?_⟩
    · simp only [Expr.sameAll, Bool.and_true, Bool.and_eq_true] at hfs ⊢
      exact ⟨hfs, hes⟩
    · simp only [Reader.run_append, hpush outer steps members, Except.bind, Reader.run,
        Reader.step, hk, hpush' outer steps]
      simp
  | lastStep _ ih =>
    obtain ⟨es', hes, hpush⟩ := ih ls hls
    refine ⟨[Expr.ofMembers es'], ?_, fun outer steps => ?_⟩
    · simp [Expr.sameAll, Expr.same_ofMembers hes]
    · exact ⟨_, by simp [Level.endGroup], hpush outer steps []⟩
  | @step ts us es fs _ _ ih ih' =>
    obtain ⟨left, more, rfl, hleft, hmore⟩ := List.map_eq_append_iff.1 hls
    obtain ⟨k, right, rfl, hk, hright⟩ := List.map_eq_cons_iff.1 hmore
    obtain ⟨es', hes, hpush⟩ := ih left hleft
    obtain ⟨fs', hfs, hpush'⟩ := ih' right hright
    refine ⟨Expr.ofMembers es' :: fs', ?_, fun outer steps => ?_⟩
    · simp only [Expr.sameAll, Bool.and_eq_true]
      exact ⟨Expr.same_ofMembers hes, hfs⟩
    · obtain ⟨l, hl, hrun⟩ := hpush' outer (Expr.ofMembers es' :: steps)
      refine ⟨l, by simp [hl], ?_⟩
      simp only [Reader.run_append, hpush outer steps [], Except.bind, Reader.run, Reader.step, hk,
        Level.endGroup, List.append_nil, List.reverse_reverse, hrun]

theorem Forms.run {ts : List Token} {e : Expr} (h : Forms ts e) {ls : List Located}
    (hls : ls.map (·.token) = ts) :
    ∃ r e', Reader.start.run ls = .ok r ∧ r.result? = some e' ∧ e'.same e = true := by
  obtain ⟨es, hes, he⟩ := h
  obtain ⟨es', hsame, hpush⟩ := hes.pushes ls hls
  obtain ⟨l, hl, hrun⟩ := hpush [] []
  refine ⟨_, Expr.ofSteps es', hrun, ?_, ?_⟩
  · simp [Reader.result?, Level.expr, hl]
  · exact Expr.same_trans (Expr.same_ofSteps hsame) (Expr.same_symm he)

/-- Finished phrases, the last first, each with the operator after it. -/
inductive Finished (phrase : Phrase) (operator : Token) : List Token → List Expr → Prop
  | nil : Finished phrase operator [] []
  | snoc {ts us : List Token} {es fs : List Expr} :
      Finished phrase operator ts es → Derives phrase us fs →
        Finished phrase operator (ts ++ (us ++ [operator])) (Expr.ofMembers fs :: es)

/-- The tokens that a level has read since its parenthesis. -/
inductive Level.Read : Level → Bool → List Token → Prop
  | awaiting {ts us : List Token} {steps members : List Expr} :
      Finished .group .arrow ts steps → Finished .operand .plus us members →
        Level.Read ⟨steps, members⟩ false (ts ++ us)
  | complete {ts us vs : List Token} {steps members : List Expr} {e : Expr} :
      Finished .group .arrow ts steps → Finished .operand .plus us members →
        Derives .operand vs [e] → Level.Read ⟨steps, e :: members⟩ true (ts ++ (us ++ vs))

/-- The tokens that the levels around the present one have read, up to its parenthesis. -/
inductive Opened : List Level → List Token → Prop
  | nil : Opened [] []
  | cons {outer : List Level} {l : Level} {ts us : List Token} :
      Opened outer ts → l.Read false us → Opened (l :: outer) (ts ++ (us ++ [.opening]))

/-- The tokens that a reader has read. -/
def Reader.Read (r : Reader) (ts : List Token) : Prop :=
  ∃ us vs, Opened r.outer us ∧ r.level.Read r.complete vs ∧ ts = us ++ vs

theorem Finished.group {us vs : List Token} {members es : List Expr}
    (h : Finished .operand .plus us members) (hvs : Derives .group vs es) :
    Derives .group (us ++ vs) (members.reverse ++ es) := by
  induction h generalizing vs es with
  | nil => exact hvs
  | @snoc ts us members fs _ hfs ih =>
    have hone : ∃ f, fs = [f] := by
      cases hfs <;> exact ⟨_, rfl⟩
    obtain ⟨f, rfl⟩ := hone
    have hstep := ih (.member hfs hvs)
    simpa [Expr.ofMembers] using hstep

theorem Finished.chain {us vs : List Token} {steps es : List Expr}
    (h : Finished .group .arrow us steps) (hvs : Derives .chain vs es) :
    Derives .chain (us ++ vs) (steps.reverse ++ es) := by
  induction h generalizing vs es with
  | nil => exact hvs
  | @snoc ts us steps fs _ hfs ih =>
    have hstep := ih (.step hfs hvs)
    simpa using hstep

namespace Level.Read

theorem addMember {l : Level} {ts us : List Token} {e : Expr} (h : l.Read false ts)
    (he : Derives .operand us [e]) : (l.addMember e).Read true (ts ++ us) := by
  cases h with
  | awaiting hsteps hmembers =>
    rw [List.append_assoc]
    exact .complete hsteps hmembers he

theorem plus {l : Level} {ts : List Token} (h : l.Read true ts) :
    l.Read false (ts ++ [.plus]) := by
  cases h with
  | complete hsteps hmembers he =>
    rw [List.append_assoc, List.append_assoc]
    exact .awaiting hsteps (.snoc hmembers he)

theorem endGroup {l : Level} {ts : List Token} (h : l.Read true ts) :
    l.endGroup.Read false (ts ++ [.arrow]) := by
  cases h with
  | @complete ts us vs steps members e hsteps hmembers he =>
    have hgroup := Finished.snoc hsteps (hmembers.group (.lastMember he))
    have hread := Level.Read.awaiting hgroup .nil
    simpa [Level.endGroup] using hread

theorem forms {l : Level} {ts : List Token} (h : l.Read true ts) :
    ∃ es, Derives .chain ts es ∧ l.expr = Expr.ofSteps es := by
  cases h with
  | @complete ts us vs steps members e hsteps hmembers he =>
    have hgroup := hmembers.group (.lastMember he)
    refine ⟨_, hsteps.chain (.lastStep hgroup), ?_⟩
    simp [Level.expr, Level.endGroup]

end Level.Read

theorem Reader.Read.step {r next : Reader} {ts : List Token} {l : Located} (h : r.Read ts)
    (hs : r.step l = some next) : next.Read (ts ++ [l.token]) := by
  obtain ⟨outer, level, complete⟩ := r
  obtain ⟨token, position⟩ := l
  obtain ⟨us, vs, hus, hvs, rfl⟩ := h
  -- An operand is read where none is complete, and an operator or the end of a level where one is.
  cases complete with
  | false =>
    cases token with
    | name text =>
      cases hs
      exact ⟨us, _, hus, hvs.addMember (.name text position), by simp⟩
    | opening =>
      cases hs
      exact ⟨_, [], .cons hus hvs, .awaiting .nil .nil, by simp⟩
    | plus | arrow | closing => cases hs
  | true =>
    cases token with
    | plus =>
      cases hs
      exact ⟨us, _, hus, hvs.plus, by simp⟩
    | arrow =>
      cases hs
      exact ⟨us, _, hus, hvs.endGroup, by simp⟩
    | closing =>
      cases hus with
      | nil => cases hs
      | cons houter haround =>
        cases hs
        obtain ⟨es, hes, hexpr⟩ := hvs.forms
        have henclosed := Derives.enclosed hes
        rw [← hexpr] at henclosed
        exact ⟨_, _, houter, haround.addMember henclosed, by simp⟩
    | name text | opening => cases hs

theorem Reader.Read.run {r last : Reader} {ts : List Token} {ls : List Located} (h : r.Read ts)
    (hr : r.run ls = .ok last) : last.Read (ts ++ ls.map (·.token)) := by
  induction ls generalizing r ts with
  | nil =>
    cases hr
    simpa using h
  | cons l ls ih =>
    simp only [Reader.run] at hr
    cases hs : r.step l with
    | none => rw [hs] at hr; cases hr
    | some next =>
      rw [hs] at hr
      have hlast := ih (h.step hs) hr
      simpa using hlast

/-- What the reader accepts has a derivation, with the positions of the tokens in its tree. -/
theorem derives_of_run {ls : List Located} {r : Reader} {e : Expr}
    (hr : Reader.start.run ls = .ok r) (he : r.result? = some e) :
    ∃ es, Derives .chain (ls.map (·.token)) es ∧ e = Expr.ofSteps es := by
  have hstart : Reader.start.Read [] := ⟨[], [], .nil, .awaiting .nil .nil, rfl⟩
  obtain ⟨us, vs, hus, hvs, hts⟩ := hstart.run hr
  obtain ⟨outer, level, complete⟩ := r
  cases complete with
  | false => cases he
  | true =>
    cases hus with
    | cons _ _ => cases he
    | nil =>
      cases he
      rw [List.nil_append] at hts
      rw [hts]
      exact hvs.forms

theorem forms_of_run {ls : List Located} {r : Reader} {e : Expr}
    (hr : Reader.start.run ls = .ok r) (he : r.result? = some e) :
    Forms (ls.map (·.token)) e := by
  obtain ⟨es, hes, rfl⟩ := derives_of_run hr he
  exact ⟨es, hes, Expr.same_refl _⟩

theorem Forms.of_same {ts : List Token} {e f : Expr} (h : Forms ts e) (hs : e.same f = true) :
    Forms ts f := by
  obtain ⟨es, hes, he⟩ := h
  exact ⟨es, hes, Expr.same_trans (Expr.same_symm hs) he⟩

/-- A token list has at most one tree, up to positions. -/
theorem Forms.unique {ts : List Token} {e f : Expr} (he : Forms ts e) (hf : Forms ts f) :
    e.same f = true := by
  have hls : (ts.map fun t => (⟨t, 0⟩ : Located)).map (·.token) = ts := by
    simp [Function.comp_def]
  obtain ⟨r, e', hr, he', hsame⟩ := he.run hls
  obtain ⟨s, f', hs, hf', hsame'⟩ := hf.run hls
  rw [hr] at hs
  cases hs
  rw [he'] at hf'
  cases hf'
  exact Expr.same_trans (Expr.same_symm hsame) hsame'

end ColumnFlow.Expression
