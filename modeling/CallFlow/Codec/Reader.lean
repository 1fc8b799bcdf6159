import CallFlow.Json.Piece

/-!
# Reading JSON as data

The conventions that all readers of data share.  A record is an object with named fields, or an
array of all fields in their order; fields it does not know are skipped, whether they have a value
or not, and a field that may be missing may also be `null`.  A choice is the name of the
alternative, or an object that has this name as its only key.  No reader accepts a piece without a
value.
-/

namespace CallFlow.Json

/-- An alternative with one thing as its content. -/
def tagged (tag : String) (j : Json) : Json := .obj [(tag, j)]

namespace Piece

/-- How often a name occurs among members. -/
def occurrences (members : List (String × Piece)) (name : String) : Nat :=
  (members.filter fun m => m.1 == name).length

/-- Members with the texts of their keys. -/
def byText (members : List (Key × Piece)) : List (String × Piece) :=
  members.map fun (key, w) => (key.text, w)

/-- The fields of a record by name.  None of the known fields may be there twice. -/
def record? (fields : List String) : Piece → Option (List (String × Piece))
  | .obj members =>
      let members := byText members
      if fields.all fun f => occurrences members f ≤ 1 then some members else none
  | .arr items => if items.length = fields.length then some (fields.zip items) else none
  | _ => none

/-- A field that has to be there. -/
def field? {α : Type} (members : List (String × Piece)) (name : String)
    (read : Piece → Option α) : Option α :=
  (Assoc.find? members name).bind read

/-- A field that may be missing or `null`. -/
def optionalField? {α : Type} (members : List (String × Piece)) (name : String)
    (read : Piece → Option α) : Option (Option α) :=
  match Assoc.find? members name with
  | none => some none
  | some .null => some none
  | some w => (read w).map some

/-- The name of an alternative and what comes with it. -/
def choice? : Piece → Option (String × Option Piece)
  | .str tag => some (tag, none)
  | .obj [(tag, w)] => some (tag.text, some w)
  | _ => none

/-- Is the alternative there without any content? -/
def isBare : Option Piece → Bool
  | none => true
  | some .null => true
  | some _ => false

/-- A value, or `null`. -/
def nullable? {α : Type} (read : Piece → Option α) : Piece → Option (Option α)
  | .null => some none
  | w => (read w).map some

/-- A string. -/
def text? : Piece → Option String
  | .str s => some s
  | _ => none

/-- A whole number from zero to below the bound. -/
def natBelow? (bound : Nat) : Piece → Option Nat
  | .int n => if 0 ≤ n && n < bound then some n.toNat else none
  | _ => none

/-- A position in a list. -/
def position? (w : Piece) : Option Nat := natBelow? UInt64.size w

/-- A small index. -/
def index? (w : Piece) : Option UInt16 := (natBelow? UInt16.size w).map UInt16.ofNat

/-- The items of an array, each read in turn. -/
def list? {α : Type} (read : Piece → Option α) : Piece → Option (List α)
  | .arr items => items.mapM read
  | _ => none

end Piece

end CallFlow.Json
