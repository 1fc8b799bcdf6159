import CallFlow.Json.Basic

/-!
# Pieces of JSON text

A text can hold pieces that are well formed and still have no value: numbers out of the range of
floats, strings with half of a surrogate pair, containers that nest too deep.  Who wants the value
of the whole text refuses such pieces, and who reads a record skips them in fields that it does
not know.  A key also tells whether it is written without escapes, since only then it can be a
number.

`Piece.toJson?` gives the value of a piece, if every part of it has one, and `Piece.ofJson` the
piece that a value is written as.  `toJson?_ofJson` says that such a piece has the value it is
made from.
-/

namespace CallFlow.Json

/-- A key of an object, as it is written. -/
structure Key where
  text : String
  /-- Is it written without escapes? -/
  plain : Bool := true
  deriving DecidableEq, Repr

/-- A piece of JSON text. -/
inductive Piece where
  | null
  | bool (b : Bool)
  | int (n : Int)
  | float (x : Float)
  | str (s : String)
  | arr (items : List Piece)
  | obj (members : List (Key × Piece))
  /-- A well-formed piece that has no value. -/
  | unreadable
  deriving Inhabited

namespace Piece

mutual

/-- The value of a piece, if every part of it has one. -/
def toJson? : Piece → Option Json
  | .null => some .null
  | .bool b => some (.bool b)
  | .int n => some (.int n)
  | .float x => some (.float x)
  | .str s => some (.str s)
  | .arr items => (itemsToJson? items).map .arr
  | .obj members => (membersToJson? members).map .obj
  | .unreadable => none

/-- The values of the items of an array. -/
def itemsToJson? : List Piece → Option (List Json)
  | [] => some []
  | w :: rest => do
      let j ← toJson? w
      let js ← itemsToJson? rest
      return j :: js

/-- The values of the members of an object. -/
def membersToJson? : List (Key × Piece) → Option (List (String × Json))
  | [] => some []
  | (k, w) :: rest => do
      let j ← toJson? w
      let ms ← membersToJson? rest
      return (k.text, j) :: ms

end

mutual

/-- The piece that a value is written as, with keys that need no escapes. -/
def ofJson : Json → Piece
  | .null => .null
  | .bool b => .bool b
  | .int n => .int n
  | .float x => .float x
  | .str s => .str s
  | .arr items => .arr (itemsOfJson items)
  | .obj members => .obj (membersOfJson members)

/-- The pieces of the items of an array. -/
def itemsOfJson : List Json → List Piece
  | [] => []
  | j :: rest => ofJson j :: itemsOfJson rest

/-- The pieces of the members of an object. -/
def membersOfJson : List (String × Json) → List (Key × Piece)
  | [] => []
  | (k, j) :: rest => (⟨k, true⟩, ofJson j) :: membersOfJson rest

end

mutual

theorem toJson?_ofJson : (j : Json) → (ofJson j).toJson? = some j
  | .null => rfl
  | .bool _ => rfl
  | .int _ => rfl
  | .float _ => rfl
  | .str _ => rfl
  | .arr items => by simp [ofJson, toJson?, itemsToJson?_itemsOfJson items]
  | .obj members => by simp [ofJson, toJson?, membersToJson?_membersOfJson members]

theorem itemsToJson?_itemsOfJson : (js : List Json) → itemsToJson? (itemsOfJson js) = some js
  | [] => rfl
  | j :: rest => by
      simp [itemsOfJson, itemsToJson?, toJson?_ofJson j, itemsToJson?_itemsOfJson rest]

theorem membersToJson?_membersOfJson :
    (ms : List (String × Json)) → membersToJson? (membersOfJson ms) = some ms
  | [] => rfl
  | (_, j) :: rest => by
      simp [membersOfJson, membersToJson?, toJson?_ofJson j, membersToJson?_membersOfJson rest]

end

end Piece

end CallFlow.Json
