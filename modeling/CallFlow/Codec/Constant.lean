import CallFlow.Codec.Reader
import CallFlow.Value.Json

/-!
# Constants in JSON

A constant is written with the name of its shape, so that reading gives back the same constant:
whole numbers and floats stay apart, and maps keep the order of their entries.
-/

namespace CallFlow.Constant

open CallFlow.Json (tagged Key Piece)

mutual

/-- The JSON form of a constant. -/
def toJson : Constant → Json
  | .none => .str "None"
  | .bool b => tagged "Bool" (.bool b)
  | .int n => tagged "Int" (.int n.toInt)
  | .float x => tagged "Float" (.float x)
  | .str s => tagged "Str" (.str s)
  | .list items => tagged "List" (.arr (itemsToJson items))
  | .map entries => tagged "Map" (.obj (entriesToJson entries))

/-- The JSON forms of the items of a list. -/
def itemsToJson : List Constant → List Json
  | [] => []
  | c :: rest => toJson c :: itemsToJson rest

/-- The JSON forms of the entries of a map. -/
def entriesToJson : List (String × Constant) → List (String × Json)
  | [] => []
  | (k, c) :: rest => (k, toJson c) :: entriesToJson rest

end

mutual

/-- The constant of a JSON form. -/
def ofPiece? : Piece → Option Constant
  | .str tag => if tag = "None" then some .none else Option.none
  | .obj [(tag, w)] => ofTagged? tag.text w
  | _ => Option.none

/-- The constant of the shape with the given name.  A whole number may stand for a float. -/
def ofTagged? (tag : String) : Piece → Option Constant
  | .null => if tag = "None" then some .none else Option.none
  | .bool b => if tag = "Bool" then some (.bool b) else Option.none
  | .int n =>
      if tag = "Int" && Value.fitsInt n then some (.int (Int64.ofInt n))
      else if tag = "Float" then some (.float (Value.floatOfInt n))
      else Option.none
  | .float x => if tag = "Float" then some (.float x) else Option.none
  | .str s => if tag = "Str" then some (.str s) else Option.none
  | .arr items => if tag = "List" then (itemsOfPiece? items).map .list else Option.none
  | .obj members =>
      if tag = "Map" then (entriesOfPiece? members).map fun es => .map (Assoc.ofList es)
      else Option.none
  | .unreadable => Option.none

/-- The constants of the items of an array. -/
def itemsOfPiece? : List Piece → Option (List Constant)
  | [] => some []
  | w :: rest => do
      let c ← ofPiece? w
      let cs ← itemsOfPiece? rest
      return c :: cs

/-- The constants of the members of an object, in their order. -/
def entriesOfPiece? : List (Key × Piece) → Option (List (String × Constant))
  | [] => some []
  | (k, w) :: rest => do
      let c ← ofPiece? w
      let es ← entriesOfPiece? rest
      return (k.text, c) :: es

end

end CallFlow.Constant
