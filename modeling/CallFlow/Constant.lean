import CallFlow.Assoc
import CallFlow.Decimal.Layout
import CallFlow.Text.Quoted
import CallFlow.ValueType

/-!
# Constants

Literal values that stand in a graph: as sources of mappings and as defaults of parameters.  Two
constants are equal when they have the same shape and content, where floats are compared as numbers
and maps without regard to the order of their entries.
-/

namespace CallFlow

/-- A literal value of a graph. -/
inductive Constant where
  | none
  | bool (b : Bool)
  | int (n : Int64)
  | float (x : Float)
  | str (s : String)
  | list (items : List Constant)
  | map (entries : List (String × Constant))
  deriving Inhabited

/-- A 64-bit number in decimal digits. -/
def intText (n : Int64) : String := toString n.toInt

namespace Constant

/-- The type of the value that the constant stands for. -/
def valueType : Constant → ValueType
  | .none => .none
  | .bool _ => .bool
  | .int _ => .int
  | .float _ => .float
  | .str _ => .str
  | .list _ => .list
  | .map _ => .map

mutual

/-- Equality of constants. -/
def same : Constant → Constant → Bool
  | .none, .none => true
  | .bool a, .bool b => a == b
  | .int a, .int b => a == b
  | .float a, .float b => a == b
  | .str a, .str b => a == b
  | .list as, .list bs => sameItems as bs
  | .map as, .map bs => as.length == bs.length && sameEntries as bs
  | _, _ => false

/-- Equality of the items of two lists, in order. -/
def sameItems : List Constant → List Constant → Bool
  | [], [] => true
  | a :: as, b :: bs => same a b && sameItems as bs
  | _, _ => false

/-- Does the second map have every entry of the first one? -/
def sameEntries : List (String × Constant) → List (String × Constant) → Bool
  | [], _ => true
  | (k, a) :: as, bs =>
      (match Assoc.find? bs k with
        | some b => same a b
        | _ => false) && sameEntries as bs

end

instance : BEq Constant := ⟨same⟩

mutual

/-- The constant as messages show it, with the name of its shape. -/
def text : Constant → String
  | .none => "None"
  | .bool b => "Bool(" ++ (if b then "true" else "false") ++ ")"
  | .int n => "Int(" ++ intText n ++ ")"
  | .float x => "Float(" ++ Decimal.messageText x ++ ")"
  | .str s => "Str(" ++ Text.quoted s ++ ")"
  | .list items => "List(" ++ Text.bracketed (itemTexts items) ++ ")"
  | .map entries => "Map(" ++ Text.braced (entryTexts entries) ++ ")"

/-- The texts of the items of a list. -/
def itemTexts : List Constant → List String
  | [] => []
  | c :: rest => text c :: itemTexts rest

/-- The texts of the entries of a map. -/
def entryTexts : List (String × Constant) → List String
  | [] => []
  | (k, c) :: rest => (Text.quoted k ++ ": " ++ text c) :: entryTexts rest

end

end Constant

end CallFlow
