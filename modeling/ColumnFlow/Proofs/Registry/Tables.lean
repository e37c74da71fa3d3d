import ColumnFlow.Proofs.Frame.Within
import ColumnFlow.Proofs.Registry.Compilation
import Mathlib

/-!
# The two tables of a registry

A registry keeps its prototypes and its catalogue in tables of their own. They stay together as long
as every category and every description that is offered is a text.
-/
namespace ColumnFlow

theorem Failure.sortTexts_perm (texts : List String) : (sortTexts texts).Perm texts :=
  List.mergeSort_perm texts _

theorem Failure.pairwise_sortTexts (texts : List String) :
    (sortTexts texts).Pairwise (· ≤ ·) := by
  have hle : (sortTexts texts).Pairwise fun a b => (!decide (b < a)) = true := by
    refine List.pairwise_mergeSort (fun a b c => ?_) (fun a b => ?_) texts <;>
      simp only [Bool.or_eq_true, Bool.not_eq_true', decide_eq_false_iff_not, not_lt]
    · exact le_trans
    · exact le_total a b
  refine hle.imp fun h => ?_
  simpa only [Bool.not_eq_true', decide_eq_false_iff_not, not_lt] using h

theorem Failure.sorted_sortTexts {texts : List String} (h : texts.Nodup) :
    (sortTexts texts).Pairwise (· < ·) := by
  have hne : (sortTexts texts).Pairwise (· ≠ ·) := (sortTexts_perm texts).nodup_iff.2 h
  exact ((pairwise_sortTexts texts).and hne).imp fun ⟨hle, hne⟩ => lt_of_le_of_ne hle hne

namespace Registry

variable {α β : Type} {entries : List (String × α)} {x y : String} {a : α}

theorem any_key : (entries.any fun e => e.1 == x) = true ↔ x ∈ entries.map (·.1) := by
  simp [List.any_eq_true]

/-- A name that has an entry keeps its place. -/
theorem keys_put (entries : List (String × α)) (x : String) (a : α) :
    (put entries x a).map (·.1) =
      if x ∈ entries.map (·.1) then entries.map (·.1) else entries.map (·.1) ++ [x] := by
  unfold put
  by_cases hx : x ∈ entries.map (·.1)
  · rw [if_pos (any_key.2 hx), if_pos hx, List.map_map]
    refine List.map_congr_left fun e _ => ?_
    grind
  · rw [if_neg fun h => hx (any_key.1 h), if_neg hx, List.map_append]
    rfl

theorem nodup_put (h : (entries.map (·.1)).Nodup) (x : String) (a : α) :
    ((put entries x a).map (·.1)).Nodup := by
  rw [keys_put]
  split
  case isTrue => exact h
  case isFalse hx => exact List.nodup_append.2 ⟨h, List.nodup_singleton x, by grind⟩

theorem lookup_replace (entries : List (String × α)) (x y : String) (a : α) :
    (entries.map fun e => if e.1 == x then (x, a) else e).lookup y =
      if y = x then (if x ∈ entries.map (·.1) then some a else none) else entries.lookup y := by
  induction entries with
  | nil => simp
  | cons e entries ih =>
    obtain ⟨z, b⟩ := e
    rw [List.map_cons]
    by_cases hz : z = x <;> by_cases hy : y = x <;> grind

theorem lookup_of_not_mem (hx : x ∉ entries.map (·.1)) : entries.lookup x = none :=
  List.lookup_eq_none_iff.2 fun e he => by grind

theorem lookup_put (entries : List (String × α)) (x y : String) (a : α) :
    (put entries x a).lookup y = if y = x then some a else entries.lookup y := by
  unfold put
  by_cases hx : x ∈ entries.map (·.1)
  · rw [if_pos (any_key.2 hx), lookup_replace, if_pos hx]
  · rw [if_neg fun h => hx (any_key.1 h), List.lookup_append]
    by_cases hy : y = x
    · rw [hy, lookup_of_not_mem hx]
      simp
    · have hlast : [(x, a)].lookup y = none := lookup_of_not_mem (by simpa using hy)
      rw [hlast, Option.or_none, if_neg hy]

theorem lookup_without (entries : List (String × α)) (x y : String) :
    (without entries x).lookup y = if y = x then none else entries.lookup y := by
  unfold without
  induction entries with
  | nil => simp
  | cons e entries ih =>
    obtain ⟨z, b⟩ := e
    by_cases hz : z = x <;> by_cases hy : y = x <;> grind

/-- What the catalogue has to say of a prototype. -/
structure Describes (e : String × Node) (d : String × ComponentInfo) : Prop where
  key : d.1 = e.1
  name : d.2.name = e.1
  kind : d.2.kind = e.2.plan.kind

variable {prototypes : List (String × Node)} {catalogue : List (String × ComponentInfo)}
  {n : Node} {info : ComponentInfo}

theorem keys_of_described (h : List.Forall₂ Describes prototypes catalogue) :
    catalogue.map (·.1) = prototypes.map (·.1) := by
  induction h with
  | nil => rfl
  | cons hed _ ih => rw [List.map_cons, List.map_cons, hed.key, ih]

theorem lookup_of_described (h : List.Forall₂ Describes prototypes catalogue)
    (hx : prototypes.lookup x = some n) :
    ∃ info, catalogue.lookup x = some info ∧ info.name = x ∧ info.kind = n.plan.kind := by
  induction h with
  | nil => cases hx
  | @cons e d _ _ hed _ ih =>
    obtain ⟨y, p⟩ := e
    obtain ⟨z, info⟩ := d
    obtain rfl : z = y := hed.key
    by_cases hz : x = z
    · subst hz
      rw [List.lookup_cons_self] at hx
      obtain rfl := Option.some.inj hx
      exact ⟨info, List.lookup_cons_self, hed.name, hed.kind⟩
    · have hskip : (x == z) = false := by simpa using hz
      rw [List.lookup_cons, hskip] at hx
      rw [List.lookup_cons, hskip]
      exact ih hx

theorem put_described (h : List.Forall₂ Describes prototypes catalogue) (hname : info.name = x)
    (hkind : info.kind = n.plan.kind) :
    List.Forall₂ Describes (put prototypes x n) (put catalogue x info) := by
  have hnew : Describes (x, n) (x, info) := ⟨rfl, hname, hkind⟩
  have hany : (catalogue.any fun d => d.1 == x) = prototypes.any fun e => e.1 == x := by
    rw [Bool.eq_iff_iff, any_key, any_key, keys_of_described h]
  unfold put
  rw [hany]
  split
  · refine List.forall₂_map_left_iff.2 (List.forall₂_map_right_iff.2 (h.imp fun e d hed => ?_))
    rw [hed.key]
    split
    · exact hnew
    · exact hed
  · exact List.rel_append h (.cons hnew .nil)

theorem without_described (h : List.Forall₂ Describes prototypes catalogue) (x : String) :
    List.Forall₂ Describes (without prototypes x) (without catalogue x) := by
  unfold without
  induction h with
  | nil => exact .nil
  | cons hed _ ih =>
    rw [List.filter_cons, List.filter_cons, hed.key]
    split
    · exact .cons hed ih
    · exact ih

end Registry

/-- What a registration offers, if it is a node under a text. -/
def Registration.component? (new : Registration) : Option (String × Node) :=
  match new.name, new.part with
  | .scalar (.text x), .node n => some (x, n)
  | _, _ => none

/-- A registry, and the node that was last registered with success under each name, as long as the
name is not unregistered. -/
structure Ledger where
  registry : Registry
  latest : String → Option Node

namespace Ledger

def empty : Ledger := ⟨.empty, fun _ => none⟩

def register (l : Ledger) (new : Registration) : Ledger × Except Failure Unit :=
  match l.registry.register new, new.component? with
  | (r, .ok ()), some (x, n) => (⟨r, Function.update l.latest x (some n)⟩, .ok ())
  | (r, result), _ => (⟨r, l.latest⟩, result)

def unregister (l : Ledger) (name : Value) : Ledger × Except Failure Unit :=
  match l.registry.unregister name, name with
  | (r, .ok ()), .scalar (.text x) => (⟨r, Function.update l.latest x none⟩, .ok ())
  | (r, result), _ => (⟨r, l.latest⟩, result)

/-- The tables have the same names, the catalogue says of every component what it is, and nothing
that is registered is out of reach. -/
structure IsSound (l : Ledger) : Prop where
  sameNames : l.registry.catalogue.map (·.1) = l.registry.prototypes.map (·.1)
  distinct : (l.registry.prototypes.map (·.1)).Nodup
  registered : l.registry.names.Perm (l.registry.prototypes.map (·.1))
  sorted : l.registry.names.Pairwise (· < ·)
  described : ∀ x ∈ l.registry.names, ∃ n info, l.registry.get (.text x) = .ok n ∧
    l.registry.info (.text x) = .ok info ∧ info.name = x ∧ info.kind = n.plan.kind
  listed : ∃ infos, l.registry.infos = .ok infos ∧ infos.map (·.name) = l.registry.names
  removable : ∀ x ∈ l.registry.names, (l.registry.unregister (.text x)).2 = .ok ()
  latest : ∀ x n, l.latest x = some n ↔ l.registry.get (.text x) = .ok n

end Ledger

/-- A call on one of several registries. A copy is a registry of its own, put last. -/
inductive RegistryCall where
  | register (place : Nat) (new : Registration)
  | unregister (place : Nat) (name : Value)
  | copy (place : Nat)

namespace RegistryCall

/-- Changes the ledger at a place. -/
def change (ledgers : List Ledger) (place : Nat) (f : Ledger → Ledger × Except Failure Unit) :
    List Ledger × Except Failure Unit :=
  match ledgers[place]? with
  | some l => (ledgers.set place (f l).1, (f l).2)
  | none => (ledgers, .error (.unusable .key))

def run (ledgers : List Ledger) : RegistryCall → List Ledger × Except Failure Unit
  | .register place new => change ledgers place fun l => l.register new
  | .unregister place name => change ledgers place fun l => l.unregister name
  | .copy place =>
    match ledgers[place]? with
    | some l => (ledgers ++ [l], .ok ())
    | none => (ledgers, .error (.unusable .key))

/-- A registration that the checks let through is not refused for its category or description. -/
def IsDescribed (ledgers : List Ledger) : RegistryCall → Prop
  | .register place new => ∀ l ∈ ledgers[place]?, ∀ x n, l.registry.check new = .ok (x, n) →
      ∃ info, Registry.describe x n.plan.kind new = .ok info
  | _ => True

/-- The registries that calls lead to from an empty one. -/
inductive Reached : List Ledger → Prop
  | start : Reached [.empty]
  | step {ledgers : List Ledger} {call : RegistryCall} :
      Reached ledgers → call.IsDescribed ledgers → Reached (call.run ledgers).1

end RegistryCall

/-! One call. -/

namespace Registry

theorem describe_eq_ok {new : Registration} {name kind : String} {info : ComponentInfo}
    (h : describe name kind new = .ok info) : info.name = name ∧ info.kind = kind := by
  unfold describe at h
  split at h
  · obtain rfl := Except.ok.inj h
    exact ⟨rfl, rfl⟩
  · cases h

theorem component_of_check {r : Registry} {new : Registration} (h : r.check new = .ok (x, n)) :
    new.component? = some (x, n) := by
  have hpart := part_of_check h
  unfold check at h
  split at h
  case h_1 name hname =>
    rw [hpart] at h
    unfold Registration.component?
    rw [hname, hpart]
    grind
  case h_2 => cases h

theorem find_eq_ok {r : Registry} {name : Value} (h : r.find name = .ok (x, n)) :
    name = .text x ∧ r.prototypes.lookup x = some n := by
  unfold find at h
  split at h
  case h_1 s =>
    split at h
    case h_1 p hp =>
      obtain ⟨rfl, rfl⟩ := Prod.mk.inj (Except.ok.inj h)
      exact ⟨rfl, hp⟩
    case h_2 => cases h
  case h_2 => cases h

end Registry

namespace Ledger

variable {l : Ledger}

/-- What every call keeps. -/
structure Holds (l : Ledger) : Prop where
  described : List.Forall₂ Registry.Describes l.registry.prototypes l.registry.catalogue
  distinct : (l.registry.prototypes.map (·.1)).Nodup
  latest : ∀ x, l.latest x = l.registry.prototypes.lookup x

theorem find_text (r : Registry) (x : String) :
    r.find (.text x) = match r.prototypes.lookup x with
      | some n => .ok (x, n)
      | none => .error (r.unknown (.text x)) := rfl

theorem Holds.unregister_eq (h : l.Holds) {x : String} {n : Node}
    (hx : l.registry.prototypes.lookup x = some n) :
    l.registry.unregister (.text x) =
      (⟨Registry.without l.registry.prototypes x, Registry.without l.registry.catalogue x⟩,
        .ok ()) := by
  have hany : (l.registry.catalogue.any fun d => d.1 == x) = true := by
    rw [Registry.any_key, Registry.keys_of_described h.described]
    exact List.mem_map_of_mem (Registry.mem_of_lookup hx)
  unfold Registry.unregister
  rw [find_text, hx]
  exact if_pos hany

theorem Holds.register (h : l.Holds) {new : Registration}
    (hnew : ∀ x n, l.registry.check new = .ok (x, n) →
      ∃ info, Registry.describe x n.plan.kind new = .ok info) :
    (l.register new).1.Holds ∧
      ∀ e, (l.register new).2 = .error e → (l.register new).1 = l := by
  unfold Ledger.register Registry.register
  cases hcheck : l.registry.check new with
  | error e => exact ⟨h, fun _ _ => rfl⟩
  | ok p =>
    obtain ⟨x, n⟩ := p
    obtain ⟨info, hinfo⟩ := hnew x n hcheck
    obtain ⟨hname, hkind⟩ := Registry.describe_eq_ok hinfo
    dsimp only
    rw [hinfo, Registry.component_of_check hcheck]
    refine ⟨⟨Registry.put_described h.described hname hkind, Registry.nodup_put h.distinct x n,
      fun y => ?_⟩, fun e he => by cases he⟩
    dsimp only
    rw [Registry.lookup_put, Function.update_apply, h.latest]

theorem Holds.unregister (h : l.Holds) (name : Value) :
    (l.unregister name).1.Holds ∧
      ∀ e, (l.unregister name).2 = .error e → (l.unregister name).1 = l := by
  unfold Ledger.unregister
  cases hfind : l.registry.find name with
  | error e =>
    have hrefused : l.registry.unregister name = (l.registry, .error e) := by
      unfold Registry.unregister
      rw [hfind]
    rw [hrefused]
    exact ⟨h, fun _ _ => rfl⟩
  | ok p =>
    obtain ⟨x, n⟩ := p
    obtain ⟨rfl, hx⟩ := Registry.find_eq_ok hfind
    rw [h.unregister_eq hx]
    refine ⟨⟨Registry.without_described h.described x, ?_, fun y => ?_⟩, fun e he => by cases he⟩
    · exact h.distinct.sublist (List.filter_sublist.map _)
    · dsimp only
      rw [Registry.lookup_without, Function.update_apply, h.latest]

theorem Holds.exists_prototype (h : l.Holds) {x : String} (hx : x ∈ l.registry.names) :
    ∃ n info, l.registry.prototypes.lookup x = some n ∧ l.registry.infoOf x = .ok info ∧
      info.name = x ∧ info.kind = n.plan.kind := by
  have hmem : x ∈ l.registry.prototypes.map (·.1) := (Failure.sortTexts_perm _).mem_iff.1 hx
  obtain ⟨n, hn⟩ : ∃ n, l.registry.prototypes.lookup x = some n := by
    cases hlookup : l.registry.prototypes.lookup x with
    | some n => exact ⟨n, rfl⟩
    | none =>
      obtain ⟨e, he, rfl⟩ := List.mem_map.1 hmem
      have := List.lookup_eq_none_iff.1 hlookup e he
      simp at this
  obtain ⟨info, hinfo, hname, hkind⟩ := Registry.lookup_of_described h.described hn
  refine ⟨n, info, hn, ?_, hname, hkind⟩
  unfold Registry.infoOf
  rw [hinfo]

theorem Holds.infos (h : l.Holds) :
    ∃ infos, l.registry.infos = .ok infos ∧ infos.map (·.name) = l.registry.names := by
  have : Nonempty ComponentInfo := ⟨⟨"", "", "", ""⟩⟩
  choose! n info _ hinfo hname _ using fun x => h.exists_prototype (x := x)
  refine ⟨l.registry.names.map info, mapM_ok hinfo, ?_⟩
  rw [List.map_map]
  exact (List.map_congr_left hname).trans (List.map_id _)

theorem get_text (r : Registry) (x : String) (n : Node) :
    r.get (.text x) = .ok n ↔ r.prototypes.lookup x = some n := by
  unfold Registry.get
  rw [find_text]
  cases r.prototypes.lookup x with
  | none => exact ⟨fun h => (nomatch h), fun h => (nomatch h)⟩
  | some p =>
    constructor <;> intro h
    · exact congrArg some (Except.ok.inj h)
    · exact congrArg Except.ok (Option.some.inj h)

theorem Holds.isSound (h : l.Holds) : l.IsSound where
  sameNames := Registry.keys_of_described h.described
  distinct := h.distinct
  registered := Failure.sortTexts_perm _
  sorted := Failure.sorted_sortTexts h.distinct
  described x hx := by
    obtain ⟨n, info, hn, hinfo, hname, hkind⟩ := h.exists_prototype hx
    refine ⟨n, info, (get_text _ x n).2 hn, ?_, hname, hkind⟩
    unfold Registry.info
    rw [find_text, hn]
    exact hinfo
  listed := h.infos
  removable x hx := by
    obtain ⟨n, _, hn, -⟩ := h.exists_prototype hx
    rw [h.unregister_eq hn]
  latest x n := by rw [h.latest, get_text]

end Ledger

namespace RegistryCall

variable {ledgers : List Ledger}

theorem change_holds (h : ∀ l ∈ ledgers, l.Holds) {place : Nat}
    {f : Ledger → Ledger × Except Failure Unit}
    (hf : ∀ l ∈ ledgers[place]?, l.Holds →
      (f l).1.Holds ∧ ∀ e, (f l).2 = .error e → (f l).1 = l) :
    (∀ l ∈ (change ledgers place f).1, l.Holds) ∧
      ∀ e, (change ledgers place f).2 = .error e → (change ledgers place f).1 = ledgers := by
  unfold change
  cases hplace : ledgers[place]? with
  | none => exact ⟨h, fun _ _ => rfl⟩
  | some l =>
    obtain ⟨hholds, hfailed⟩ := hf l hplace (h l (List.mem_of_getElem? hplace))
    refine ⟨fun l' hl' => ?_, fun e he => ?_⟩
    · rcases List.mem_or_eq_of_mem_set hl' with hl' | rfl
      · exact h l' hl'
      · exact hholds
    · dsimp only
      obtain ⟨hlt, rfl⟩ := List.getElem?_eq_some_iff.1 hplace
      rw [hfailed e he, List.set_getElem_self]

theorem run_holds (h : ∀ l ∈ ledgers, l.Holds) {call : RegistryCall}
    (hcall : call.IsDescribed ledgers) :
    (∀ l ∈ (call.run ledgers).1, l.Holds) ∧
      ∀ e, (call.run ledgers).2 = .error e → (call.run ledgers).1 = ledgers := by
  cases call with
  | register place new => exact change_holds h fun l hl hholds => hholds.register (hcall l hl)
  | unregister place name => exact change_holds h fun l _ hholds => hholds.unregister name
  | copy place =>
    simp only [run]
    cases hplace : ledgers[place]? with
    | none => exact ⟨h, fun _ _ => rfl⟩
    | some l =>
      refine ⟨fun l' hl' => ?_, fun e he => by cases he⟩
      rcases List.mem_append.1 hl' with hl' | hl'
      · exact h l' hl'
      · rw [List.mem_singleton.1 hl']
        exact h l (List.mem_of_getElem? hplace)

theorem Reached.holds (h : Reached ledgers) : ∀ l ∈ ledgers, l.Holds := by
  induction h with
  | start =>
    intro l hl
    rw [List.mem_singleton.1 hl]
    exact ⟨.nil, List.nodup_nil, fun _ => rfl⟩
  | step _ hcall ih => exact (run_holds ih hcall).1

/-- As long as no registration is refused for its category or description, the tables of all
registries stay together, and a call that fails changes nothing. -/
theorem tables_stay_together (h : Reached ledgers) :
    (∀ l ∈ ledgers, l.IsSound) ∧ ∀ call : RegistryCall, call.IsDescribed ledgers →
      ∀ e, (call.run ledgers).2 = .error e → (call.run ledgers).1 = ledgers :=
  ⟨fun l hl => (h.holds l hl).isSound, fun _ hcall => (run_holds h.holds hcall).2⟩

/-- A component that is put into a registry, copied with it, and forgotten in the first. -/
theorem tables_stay_together_copied :
    let n : Node := ⟨.transformer (Passthrough.passthrough []), .mk 0 []⟩
    let new (overwrite : Bool) : Registration :=
      ⟨.text "a", .node n, .text "custom", .text "", overwrite⟩
    let ledgers := (run (run (run [.empty] (.register 0 (new true))).1 (.copy 0)).1
      (.unregister 0 (.text "a"))).1
    Reached ledgers ∧
    ledgers.map (fun l => l.registry.prototypes.map (·.1)) = [[], ["a"]] ∧
    (∀ l ∈ ledgers, l.IsSound) ∧ (run ledgers (.register 1 (new false))).1 = ledgers := by
  intro n new ledgers
  have hdescribed : ∀ ledgers place overwrite,
      (RegistryCall.register place (new overwrite)).IsDescribed ledgers :=
    fun _ _ _ _ _ x n _ => ⟨⟨x, n.plan.kind, "custom", ""⟩, rfl⟩
  have hledgers : Reached ledgers := .step (.step (.step .start (hdescribed _ _ _)) trivial) trivial
  obtain ⟨hsound, hfailed⟩ := tables_stay_together hledgers
  exact ⟨hledgers, rfl, hsound,
    hfailed _ (hdescribed _ _ _) (.misuse (.componentExists "a")) rfl⟩

/-- A category that is no text is refused too late: the prototype is there without a description,
and can then be neither described nor removed without a failure. -/
theorem tables_come_apart :
    let new : Registration :=
      ⟨.text "a", .node ⟨.transformer (Passthrough.passthrough []), .mk 0 []⟩, .int 5, .text "", true⟩
    let call : RegistryCall := .register 0 new
    (∃ e, (call.run [.empty]).2 = .error e) ∧
    ∃ l ∈ (call.run [.empty]).1, l.registry.prototypes.map (·.1) = ["a"] ∧
      l.registry.catalogue = [] ∧ l.latest "a" = none ∧
      l.registry.info (.text "a") = .error (.unusable .key) ∧
      (l.registry.unregister (.text "a")).2 = .error (.unusable .key) ∧ ¬l.IsSound := by
  intro new call
  refine ⟨⟨_, rfl⟩, _, List.mem_singleton.2 rfl, rfl, rfl, rfl, rfl, rfl, fun h => ?_⟩
  have hkeys := h.sameNames
  exact List.cons_ne_nil _ _ hkeys.symm

end RegistryCall
end ColumnFlow
