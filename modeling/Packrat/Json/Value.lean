import Packrat.Binary64
import Packrat.Text.Basic

/-! # JSON values

The values of JSON texts. Whole numbers are kept apart from others, and the members of an object
stand in the order in which they are to be written.
-/

namespace Packrat.Json

/-- A JSON value. -/
inductive Value where
  | null
  | bool (value : Bool)
  | integer (value : Int)
  | float (value : Binary64)
  | string (text : String)
  | array (items : List Value)
  | object (members : List (String × Value))

end Packrat.Json
