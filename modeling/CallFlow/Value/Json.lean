import CallFlow.Json.Basic
import CallFlow.Value.Basic

/-!
# Values as plain JSON

The form in which inputs are given and outputs are printed.  A map becomes an object with its keys
in order, an iterator the list of what it still has to yield, and a float that is not finite
becomes `null`.
-/

namespace CallFlow

namespace Value

mutual

/-- The plain JSON form of a value. -/
def toJson : Value → Json
  | .none => .null
  | .bool b => .bool b
  | .int n => .int n.toInt
  | .float x => if x.isFinite then .float x else .null
  | .str s => .str s
  | .list items => .arr (itemsToJson items)
  | .map entries => .obj (Assoc.sortedOfList textBefore (entriesToJson entries))
  | .iterator items position => .arr ((itemsToJson items).drop position)

/-- The plain JSON forms of the items of a list. -/
def itemsToJson : List Value → List Json
  | [] => []
  | v :: rest => toJson v :: itemsToJson rest

/-- The plain JSON forms of the entries of a map. -/
def entriesToJson : List (String × Value) → List (String × Json)
  | [] => []
  | (k, v) :: rest => (k, toJson v) :: entriesToJson rest

end

/-- Does the number fit a signed word of 64 bits? -/
def fitsInt (n : Int) : Bool := Int64.minValue.toInt ≤ n && n ≤ Int64.maxValue.toInt

/-- The float nearest to a whole number. -/
def floatOfInt (n : Int) : Float :=
  if n < 0 then -(Float.ofScientific n.natAbs false 0) else Float.ofScientific n.natAbs false 0

mutual

/-- The value of a plain JSON form.  Whole numbers that do not fit become floats, and objects become
maps in order of their keys, where the last of several members with one key counts. -/
def ofJson : Json → Value
  | .null => .none
  | .bool b => .bool b
  | .int n => if fitsInt n then .int (Int64.ofInt n) else .float (floatOfInt n)
  | .float x => .float x
  | .str s => .str s
  | .arr items => .list (itemsOfJson items)
  | .obj members => .map (Assoc.sortedOfList textBefore (entriesOfJson members))

/-- The values of the items of an array. -/
def itemsOfJson : List Json → List Value
  | [] => []
  | j :: rest => ofJson j :: itemsOfJson rest

/-- The values of the members of an object. -/
def entriesOfJson : List (String × Json) → List (String × Value)
  | [] => []
  | (k, j) :: rest => (k, ofJson j) :: entriesOfJson rest

end

end Value

end CallFlow
