import ColumnFlow.Failure

/-!
Options of a component: values by name, in the order in which they were given. `merge` overrides
default parameters, either by the table under `params` or, without one, by all options that are not
reserved.
-/
namespace ColumnFlow

abbrev Options := List (Scalar × Value)

namespace Options

def get? (o : Options) (name : String) : Option Value :=
  (o.find? fun e => e.1.same (.text name)).map (·.2)

def getD (o : Options) (name : String) (default : Value) : Value := (o.get? name).getD default

/-- Sets one entry: in place if the key is there, and last otherwise. -/
def set (o : Options) (key : Scalar) (v : Value) : Options :=
  if o.any fun e => e.1.same key then
    o.map fun e => if e.1.same key then (e.1, v) else e
  else o ++ [(key, v)]

def update (o changes : Options) : Options :=
  changes.foldl (fun o e => o.set e.1 e.2) o

/-- A pair of a key and a value, given as a sequence of two, of which a table gives its keys. -/
def pairOf : Value → Except Failure (Scalar × Value)
  | .list [.scalar k, v] | .tuple [.scalar k, v] => .ok (k, v)
  | .list [_, _] | .tuple [_, _] => .error (.unusable .type)
  | .dict [(k, _), (l, _)] => .ok (k, .scalar l)
  | .list _ | .tuple _ | .dict _ => .error (.unusable .value)
  | .scalar (.text s) =>
    match s.toList with
    | [a, b] => .ok (.text (String.singleton a), .text (String.singleton b))
    | _ => .error (.unusable .value)
  | _ => .error (.unusable .type)

/-- The entries of a value that stands for a table. -/
def ofValue : Value → Except Failure Options
  | .dict entries => .ok entries
  | .list items | .tuple items => items.mapM pairOf
  | .scalar (.text s) => s.toList.mapM fun c => pairOf (.text (String.singleton c))
  | _ => .error (.unusable .type)

/-- The options that a value stands for, if it counts as true, and otherwise none. -/
def given (v : Value) : Except Failure Options := if v.isTrue then ofValue v else .ok []

/-- Options that must be a table. -/
def table : Value → Except Failure Options
  | .dict entries => .ok entries
  | _ => .error (.unusable .attribute)

/-- Defaults overridden by options. An empty table under `params` counts as none. -/
def merge (defaults : Options) (options : Option Options) (reserved : List String) :
    Except Failure Options :=
  match options with
  | none | some [] => .ok defaults
  | some o =>
    let params := o.getD "params" .null
    if params.isTrue then (ofValue params).map defaults.update
    else
      .ok (defaults.update (o.filter fun e =>
        !(reserved.any fun r => e.1.same (.text r)) && !e.1.same (.text "params")))

end Options
end ColumnFlow
