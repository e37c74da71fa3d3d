import ColumnFlow.Frame.Detection

/-!
Errors that a caller makes by hand. An account holds what such an error says of itself: the values
stay as they were given, whatever they are, and the text shows them. Which values an error needs
depends on its name; a value under any other key is refused, and so is a missing one.
-/
namespace ColumnFlow

structure Account where
  text : String
  message : Value
  detail : Value
  /-- What an error of this name holds besides. -/
  more : List (String × Value)

namespace Account

/-- The keys of the values that an error of a name needs, and of those that it takes. -/
def keys : String → Option (List String × List String)
  | "UnknownComponentError" => some (["names"], ["available"])
  | "ExpressionSyntaxError" => some (["message", "expression"], ["position"])
  | "NotFittedError" => some (["node_name"], [])
  | "UnknownMetricError" => some (["name", "available"], [])
  | "AllFoldsFailedError" => some (["records"], [])
  | "PipelineAlgebraError" | "ShapeMismatchError" => some (["message"], ["detail"])
  | _ => none

def takes (needed others : List String) (values : Options) : Bool :=
  values.all (fun e => (needed ++ others).any fun k => e.1.same (.text k))
    && needed.all fun k => (values.get? k).isSome

/-- An account whose message is its text. -/
def ofText (text : String) (detail more : List (String × Value)) : Account :=
  ⟨text, .text text, .record detail, more⟩

def sorted (v : Value) : Except Failure Value := do
  match Value.sorted? (← Columns.items v) with
  | some values => return .list values
  | none => throw (.unusable .type)

def record : Value → Except Failure ScoreRecord
  | .dict entries =>
    match ScoreRecord.ofEntries (entries.map fun e => (e.1.plain, e.2)) with
    | .ok r => .ok r
    | .error faults => .error (.invalidFields faults)
  | _ => .error (.unusable .type)

/-- The account of an error by its name and the values it is made of. -/
def ofValues (name : String) (values : Options) : Except Failure Account := do
  let some (needed, others) := keys name | throw (.unusable .attribute)
  if !takes needed others values then throw (.unusable .type)
  let value (key : String) : Value := values.getD key .null
  match name with
  | "UnknownComponentError" =>
    let names ← Columns.items (value "names")
    let available ← sorted ((value "available").given (.list []))
    return ofText (Failure.unknownText (names.map Value.plain))
      [("names", .list names), ("available", available)] [("names", .list names)]
  | "ExpressionSyntaxError" =>
    let message := value "message"
    let expression := value "expression"
    let position := value "position"
    let more := [("expression", expression), ("position", position)]
    if position.isNull then
      return ⟨message.plain, message, .record [("expression", expression)], more⟩
    return ofText (Failure.placedText message.plain position.plain expression.quoted) more more
  | "NotFittedError" =>
    let node := value "node_name"
    return ofText (Failure.notFittedText node.plain) [("node", node)] []
  | "UnknownMetricError" =>
    let metric := value "name"
    let available ← sorted (value "available")
    return ofText (Failure.unknownMetricText metric.plain)
      [("metric", metric), ("available", available)] []
  | "AllFoldsFailedError" =>
    let f := Failure.allFoldsFailed (← (← Columns.items (value "records")).mapM record)
    return ⟨f.message?.getD "", .text (f.message?.getD ""), (f.detail?).getD .null, []⟩
  | _ =>
    let message := value "message"
    return ⟨message.plain, message, (value "detail").given (.dict []), []⟩

end Account
end ColumnFlow
