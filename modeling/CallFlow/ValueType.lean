/-!
# Declared types

What a function description declares for a parameter or an output.
-/

namespace CallFlow

/-- The type of a terminal.  `any` stands for no type at all. -/
inductive ValueType where
  | any
  | none
  | bool
  | int
  | float
  | str
  | list
  | map
  | iterator
  deriving DecidableEq, Repr, Inhabited

namespace ValueType

/-- Does a value of type `actual` fit a terminal of this type?  A float terminal takes whole numbers
too. -/
def accepts : (expected actual : ValueType) → Bool
  | .any, _ => true
  | .float, .int => true
  | expected, actual => decide (expected = actual)

/-- The name of the type, which is also the name under which methods of its values are found. -/
def name : ValueType → String
  | .any => "any"
  | .none => "none"
  | .bool => "bool"
  | .int => "int"
  | .float => "float"
  | .str => "str"
  | .list => "list"
  | .map => "map"
  | .iterator => "iterator"

end ValueType

end CallFlow
