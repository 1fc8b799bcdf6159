import CallFlow.Assoc

/-!
# JSON values

A JSON value that keeps the order of object members, and repeated ones.  Whole numbers that fit 64
bits are kept apart from all others, which are floats.

`Json.sorted` gives the same value with the members of every object in order of their keys, where
the last of several members with one key counts.
-/

namespace CallFlow

/-- A JSON value. -/
inductive Json where
  | null
  | bool (b : Bool)
  | int (n : Int)
  | float (x : Float)
  | str (s : String)
  | arr (items : List Json)
  | obj (members : List (String × Json))
  deriving Inhabited

/-- Does the first text stand before the second one, by code points? -/
def textBefore (a b : String) : Bool := decide (a < b)

namespace Json

mutual

/-- The value with the members of its objects sorted by key. -/
def sorted : Json → Json
  | .arr items => .arr (sortedItems items)
  | .obj members => .obj (Assoc.sortedOfList textBefore (sortedMembers members))
  | .null => .null
  | .bool b => .bool b
  | .int n => .int n
  | .float x => .float x
  | .str s => .str s

/-- `sorted` on the items of an array. -/
def sortedItems : List Json → List Json
  | [] => []
  | j :: rest => sorted j :: sortedItems rest

/-- `sorted` on the members of an object, which keep their own order. -/
def sortedMembers : List (String × Json) → List (String × Json)
  | [] => []
  | (k, j) :: rest => (k, sorted j) :: sortedMembers rest

end

/-- A whole number. -/
def ofNat (n : Nat) : Json := .int n

/-- `null` for nothing. -/
def ofOption {α : Type} (f : α → Json) : Option α → Json
  | none => .null
  | some a => f a

/-- An array. -/
def ofList {α : Type} (f : α → Json) (items : List α) : Json := .arr (items.map f)

end Json

end CallFlow
