import CallFlow.Constant
import CallFlow.Composition.Basic

/-!
# Runtime values

The values that flow through terminals.  A value is what a constant stands for, or an iterator: a
cursor over a list of items.

This file has the type, the conversion of constants, truth, equality, the text that messages show,
and reading one element by a strategy.
-/

namespace CallFlow

/-- A runtime value. -/
inductive Value where
  | none
  | bool (b : Bool)
  | int (n : Int64)
  | float (x : Float)
  | str (s : String)
  | list (items : List Value)
  /-- Entries in the order in which their keys arrived. -/
  | map (entries : List (String × Value))
  /-- A cursor that has passed `position` of the items. -/
  | iterator (items : List Value) (position : Nat)
  deriving Inhabited

namespace Value

mutual

/-- The value that a constant stands for. -/
def ofConstant : Constant → Value
  | .none => .none
  | .bool b => .bool b
  | .int n => .int n
  | .float x => .float x
  | .str s => .str s
  | .list items => .list (ofConstants items)
  | .map entries => .map (ofEntries entries)

/-- The values of the items of a constant list. -/
def ofConstants : List Constant → List Value
  | [] => []
  | c :: rest => ofConstant c :: ofConstants rest

/-- The values of the entries of a constant map. -/
def ofEntries : List (String × Constant) → List (String × Value)
  | [] => []
  | (k, c) :: rest => (k, ofConstant c) :: ofEntries rest

end

/-- The type of the value. -/
def valueType : Value → ValueType
  | .none => .none
  | .bool _ => .bool
  | .int _ => .int
  | .float _ => .float
  | .str _ => .str
  | .list _ => .list
  | .map _ => .map
  | .iterator _ _ => .iterator

/-- The name of the value's type, under which its methods are found. -/
def typeName (v : Value) : String := v.valueType.name

/-- The truth of a value: nothing, zero and what is empty are false. -/
def truthy : Value → Bool
  | .none => false
  | .bool b => b
  | .int n => n != 0
  | .float x => x != 0.0
  | .str s => !s.isEmpty
  | .list items => !items.isEmpty
  | .map entries => !entries.isEmpty
  | .iterator _ _ => true

/-! ## Equality -/

mutual

/-- Equality of values: of one type, floats as numbers, maps without regard to order. -/
def same : Value → Value → Bool
  | .none, .none => true
  | .bool a, .bool b => a == b
  | .int a, .int b => a == b
  | .float a, .float b => a == b
  | .str a, .str b => a == b
  | .list as, .list bs => sameItems as bs
  | .map as, .map bs => as.length == bs.length && sameEntries as bs
  | .iterator as i, .iterator bs j => sameItems as bs && i == j
  | _, _ => false

/-- Equality of the items of two lists, in order. -/
def sameItems : List Value → List Value → Bool
  | [], [] => true
  | a :: as, b :: bs => same a b && sameItems as bs
  | _, _ => false

/-- Does the second map have every entry of the first one? -/
def sameEntries : List (String × Value) → List (String × Value) → Bool
  | [], _ => true
  | (k, a) :: as, bs =>
      (match Assoc.find? bs k with
        | some b => same a b
        | _ => false) && sameEntries as bs

end

instance : BEq Value := ⟨same⟩

/-! ## Text -/

mutual

/-- The text of a value.  A string stands for itself. -/
def text : Value → String
  | .none => "None"
  | .bool b => if b then "True" else "False"
  | .int n => intText n
  | .float x => Decimal.messageText x
  | .str s => s
  | .list items => Text.bracketed (itemTexts items)
  | .map entries => Text.braced (entryTexts entries)
  | .iterator items position =>
      "<iterator " ++ toString position ++ "/" ++ toString items.length ++ ">"

/-- The text of a value inside another one, where strings are quoted. -/
def innerText : Value → String
  | .str s => Text.quoted s
  | .none => "None"
  | .bool b => if b then "True" else "False"
  | .int n => intText n
  | .float x => Decimal.messageText x
  | .list items => Text.bracketed (itemTexts items)
  | .map entries => Text.braced (entryTexts entries)
  | .iterator items position =>
      "<iterator " ++ toString position ++ "/" ++ toString items.length ++ ">"

/-- The texts of the items of a list. -/
def itemTexts : List Value → List String
  | [] => []
  | v :: rest => innerText v :: itemTexts rest

/-- The texts of the entries of a map. -/
def entryTexts : List (String × Value) → List String
  | [] => []
  | (k, v) :: rest => (Text.quoted k ++ ": " ++ innerText v) :: entryTexts rest

end

/-- How many characters of a value's text a summary shows. -/
def summaryLimit : Nat := 60

/-- The type and the text of a value, cut to a fixed length. -/
def summary (v : Value) : String :=
  let cs := v.text.toList
  if summaryLimit < cs.length then
    v.typeName ++ " " ++ String.ofList (cs.take summaryLimit) ++ "..."
  else v.typeName ++ " " ++ v.text

/-! ## Elements -/

/-- Why an element cannot be read. -/
inductive ItemFault where
  | outOfList (position length : Nat)
  | outOfIterator (position length : Nat)
  | outOfString (position : Nat)
  | missingKey (key : String)
  | writeOnly
  | unsupported (valueType : ValueType) (strategy : Strategy)
  deriving DecidableEq, Repr

/-- The fault in words. -/
def ItemFault.text : ItemFault → String
  | .outOfList i n =>
      "index " ++ toString i ++ " out of range for list of length " ++ toString n
  | .outOfIterator i n =>
      "index " ++ toString i ++ " out of range for iterator of length " ++ toString n
  | .outOfString i => "index " ++ toString i ++ " out of range for string"
  | .missingKey key => "key '" ++ key ++ "' not present"
  | .writeOnly => "append is a write-only strategy"
  | .unsupported t strategy => t.name ++ " does not support " ++ strategy.text

/-- The element of a list, or the reason why there is none. -/
def orFault {α : Type} (fault : ItemFault) : Option α → Except ItemFault α
  | some a => .ok a
  | _ => .error fault

/-- Reads one element of a value. -/
def item (v : Value) (strategy : Strategy) : Except ItemFault Value :=
  match v, strategy with
  | .list items, .index i => orFault (.outOfList i items.length) items[i]?
  | .iterator items _, .index i => orFault (.outOfIterator i items.length) items[i]?
  | .str s, .index i =>
      orFault (.outOfString i) (s.toList[i]?.map fun c => .str (String.ofList [c]))
  | .map entries, .key k => orFault (.missingKey k) (Assoc.find? entries k)
  | _, .append => .error .writeOnly
  | v, strategy => .error (.unsupported v.valueType strategy)

end Value

end CallFlow
