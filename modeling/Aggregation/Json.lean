import Aggregation.Double
import Aggregation.Fields

/-!
# JSON values

A JSON value with its numbers already told apart into whole numbers and doubles.
Objects keep their members in order, one for each key.
-/

namespace Aggregation

inductive Json where
  | null
  | bool (b : Bool)
  | int (n : Int)
  | double (d : Double)
  | string (s : String)
  | array (items : List Json)
  | object (members : List (String × Json))
  deriving Inhabited

namespace Json

/-- A list of texts. -/
def strings (texts : List String) : Json :=
  array (texts.map string)

def nat (n : Nat) : Json := int n

end Json

end Aggregation
