import Mathlib.Tactic.Common

/-! A parsed JSON document as Python's `json` module gives it. A number is an integer or it is not; what is
not stays as it was written. -/
namespace EasyHaProxy

inductive Json
  | null
  | bool (b : Bool)
  | int (n : Int)
  | float (text : String)
  | str (s : String)
  | arr (items : List Json)
  | obj (fields : List (String × Json))

namespace Json

/-- `data.get(key)` of an object. -/
def get? (fields : List (String × Json)) (key : String) : Option Json := fields.lookup key

def getD (fields : List (String × Json)) (key : String) (default : Json) : Json :=
  (get? fields key).getD default

def str? : Json → Option String
  | .str s => some s
  | _ => none

/-- An integer proper: JSON's true and false are not numbers. -/
def int? : Json → Option Int
  | .int n => some n
  | _ => none

def arr? : Json → Option (List Json)
  | .arr items => some items
  | _ => none

def obj? : Json → Option (List (String × Json))
  | .obj fields => some fields
  | _ => none

end Json

end EasyHaProxy
