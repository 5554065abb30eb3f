import EasyHaProxy.Lib.Text

/-! What `yaml.safe_load` gives, with what Python does to such a value whatever its type. -/
namespace EasyHaProxy.Yaml

inductive Value
  | null
  | bool (b : Bool)
  | int (n : Int)
  | str (s : String)
  | list (items : List Value)
  | map (fields : List (String × Value))
  /-- A float or a date, say: its text, and whether it counts as true. -/
  | other (text : String) (counts : Bool)

/-- The keys of a mapping that are texts, with their values. -/
abbrev Fields := List (String × Value)

namespace Value

/-- `bool(value)`. -/
def truthy : Value → Bool
  | null => false
  | bool b => b
  | int n => n ≠ 0
  | str s => s ≠ ""
  | list items => !items.isEmpty
  | map fields => !fields.isEmpty
  | other _ counts => counts

/-- `str(value)`; what it gives of a list or a mapping is passed in. -/
def text (str : Value → String) : Value → String
  | null => "None"
  | bool true => "True"
  | bool false => "False"
  | int n => toString n
  | .str s => s
  | other text _ => text
  | v => str v

end Value

/-- `str(value or "").strip()`. -/
def stripped (str : Value → String) (v : Option Value) : String :=
  match v with
  | some v => if v.truthy then String.ofList (Text.strip (v.text str).toList) else ""
  | none => ""

end EasyHaProxy.Yaml
