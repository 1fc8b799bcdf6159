import CallFlow.Codec.Reader
import CallFlow.Value.Json

/-!
# Values in JSON

A value is written like a constant, with the name of its shape; an iterator is a record of its items
and its position.  Unlike plain JSON, this form can be read back without loss.
-/

namespace CallFlow.Value

open CallFlow.Json (tagged Key Piece)

mutual

/-- The JSON form of a value, with the names of shapes. -/
def toShaped : Value → Json
  | .none => .str "None"
  | .bool b => tagged "Bool" (.bool b)
  | .int n => tagged "Int" (.int n.toInt)
  | .float x => tagged "Float" (.float x)
  | .str s => tagged "Str" (.str s)
  | .list items => tagged "List" (.arr (itemsToShaped items))
  | .map entries => tagged "Map" (.obj (entriesToShaped entries))
  | .iterator items position =>
      tagged "Iterator"
        (.obj [("items", .arr (itemsToShaped items)), ("position", .ofNat position)])

/-- The JSON forms of the items of a list. -/
def itemsToShaped : List Value → List Json
  | [] => []
  | v :: rest => toShaped v :: itemsToShaped rest

/-- The JSON forms of the entries of a map. -/
def entriesToShaped : List (String × Value) → List (String × Json)
  | [] => []
  | (k, v) :: rest => (k, toShaped v) :: entriesToShaped rest

end

/-- The position of an iterator, if its record names its two fields once. -/
def iteratorPosition? (members : List (Key × Piece)) : Option Nat := do
  let members ← Piece.record? ["items", "position"] (.obj members)
  Piece.field? members "position" Piece.position?

mutual

/-- The value of a JSON form with the names of shapes. -/
def ofShaped? : Piece → Option Value
  | .str tag => if tag = "None" then some .none else Option.none
  | .obj [(tag, w)] => ofTagged? tag.text w
  | _ => Option.none

/-- The value of the shape with the given name.  A whole number may stand for a float. -/
def ofTagged? (tag : String) : Piece → Option Value
  | .null => if tag = "None" then some .none else Option.none
  | .bool b => if tag = "Bool" then some (.bool b) else Option.none
  | .int n =>
      if tag = "Int" && fitsInt n then some (.int (Int64.ofInt n))
      else if tag = "Float" then some (.float (floatOfInt n))
      else Option.none
  | .float x => if tag = "Float" then some (.float x) else Option.none
  | .str s => if tag = "Str" then some (.str s) else Option.none
  | .arr [.arr items, position] =>
      if tag = "Iterator" then do
        return .iterator (← itemsOfShaped? items) (← Piece.position? position)
      else Option.none
  | .arr items => if tag = "List" then (itemsOfShaped? items).map .list else Option.none
  | .obj members =>
      if tag = "Map" then (entriesOfShaped? members).map fun es => .map (Assoc.ofList es)
      else if tag = "Iterator" then do
        return .iterator (← iteratorItems? members) (← iteratorPosition? members)
      else Option.none
  | .unreadable => Option.none

/-- The values of the items of an array. -/
def itemsOfShaped? : List Piece → Option (List Value)
  | [] => some []
  | w :: rest => do
      let v ← ofShaped? w
      let vs ← itemsOfShaped? rest
      return v :: vs

/-- The values of the members of an object, in their order. -/
def entriesOfShaped? : List (Key × Piece) → Option (List (String × Value))
  | [] => some []
  | (k, w) :: rest => do
      let v ← ofShaped? w
      let es ← entriesOfShaped? rest
      return (k.text, v) :: es

/-- The items in the record of an iterator. -/
def iteratorItems? : List (Key × Piece) → Option (List Value)
  | [] => Option.none
  | (k, .arr items) :: rest =>
      if k.text = "items" then itemsOfShaped? items else iteratorItems? rest
  | (k, _) :: rest => if k.text = "items" then Option.none else iteratorItems? rest

end

end CallFlow.Value
