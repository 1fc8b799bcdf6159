import CallFlow.Host.Arithmetic
import CallFlow.Text.Case

/-!
# Collections, iteration and strings

Functions on lists, maps, strings and iterators, and the methods of these types.  Methods work on
their receiver in place, and write it as the last thing they do.
-/

namespace CallFlow.Host

/-- What iterating over a value yields. -/
def elements : Value → Except HostFault (List Value)
  | .list items => .ok items
  | .iterator items position => .ok (items.drop position)
  | .map entries => .ok (entries.map fun e => .str e.1)
  | .str s => .ok (s.toList.map fun c => .str (String.ofList [c]))
  | v => .error (.type "iterable" v)

/-- A count as a value. -/
def countValue (n : Nat) : Value := .int (Int64.ofNat n)

/-- How many elements a value has. -/
def len : Value → Except HostFault Value
  | .str s => .ok (countValue s.length)
  | .list items => .ok (countValue items.length)
  | .map entries => .ok (countValue entries.length)
  | .iterator items position => .ok (countValue (items.length - position))
  | v => .error (.type "sized value" v)

/-- A whole number. -/
def asInt : Value → Except HostFault Int64
  | .int n => .ok n
  | v => .error (.type "int" v)

/-- Is the number before the end of a range in steps of `step`? -/
def isBefore (step stop i : Int64) : Bool := (0 < step && i < stop) || (step < 0 && stop < i)

/-- How far a number is before the end of a range. -/
def distance (step stop i : Int64) : Nat :=
  if 0 < step then (stop.toInt - i.toInt).toNat else (i.toInt - stop.toInt).toNat

/-- A step brings a number that is before the end of a range closer to it, or takes it past the
end. -/
theorem distance_lt {step stop i next : Int64} (hbefore : isBefore step stop i = true)
    (hnext : narrow? (i.toInt + step.toInt) = some next) :
    distance step stop next < distance step stop i := by
  have hsum := toInt_of_narrow? hnext
  simp only [isBefore, Bool.or_eq_true, Bool.and_eq_true, decide_eq_true_eq, Int64.lt_iff_toInt_lt,
    Int64.toInt_zero] at hbefore
  simp only [distance, Int64.lt_iff_toInt_lt, Int64.toInt_zero]
  split <;> omega

/-- The numbers of a range from `i` on, the last one first, and behind them those that are given.  A
range ends before `stop`, and where the next number would not fit. -/
def rangeFrom (step stop i : Int64) (items : List Value) : List Value :=
  if _ : isBefore step stop i then
    match _ : narrow? (i.toInt + step.toInt) with
    | some next => rangeFrom step stop next (.int i :: items)
    | none => .int i :: items
  else items
termination_by distance step stop i
decreasing_by exact distance_lt ‹_› ‹_›

/-- The start, the end and the step of a range, from its end, its two ends, or its ends and step. -/
def rangeEnds : List Int64 → Except HostFault (Int64 × Int64 × Int64)
  | [stop] => .ok (0, stop, 1)
  | [start, stop] => .ok (start, stop, 1)
  | [start, stop, step] => .ok (start, stop, step)
  | _ => fail "range takes 1 to 3 arguments"

/-- The whole numbers of a range. -/
def range (inv : Invocation) : Except HostFault Value := do
  inv.expectArity 1 3
  let (start, stop, step) ← rangeEnds (← inv.args.mapM asInt)
  if step = 0 then fail "range step must not be zero"
  else return .list (rangeFrom step stop start []).reverse

/-- An iterator over a value; an iterator is its own. -/
def iter : Value → Except HostFault Value
  | .iterator items position => .ok (.iterator items position)
  | v => do return .iterator (← elements v) 0

/-- Takes the next item of the iterator that is the receiver. -/
def advance : Work Value := do
  match ← Work.receiver with
  | .iterator items position =>
      match items[position]? with
      | some v =>
          Work.write (.iterator items (position + 1))
          return v
      | none => throw .exhausted
  | v => throw (.type "iterator" v)

/-- Advances the receiver; without one, a copy of the only argument. -/
def next (inv : Invocation) : Work Value := do
  match inv.receiver with
  | some _ => advance
  | none => Work.onCopy (← inv.single) advance

/-- The elements of an argument as a list, or an empty list without one. -/
def list (inv : Invocation) : Except HostFault Value := do
  inv.expectArity 0 1
  match inv.args with
  | v :: _ => return .list (← elements v)
  | [] => return .list []

/-- The sum of the elements, starting from zero. -/
def sum (v : Value) : Except HostFault Value := do (← elements v).foldlM add (.int 0)

/-! ## Methods of lists -/

/-- The items of a list. -/
def asList : Value → Except HostFault (List Value)
  | .list items => .ok items
  | v => .error (.type "list" v)

/-- Adds an item at the end. -/
def listAppend (inv : Invocation) : Work Value := do
  let v ← inv.single
  let items ← asList (← Work.receiver)
  Work.write (.list (items ++ [v]))
  return .none

/-- The position that an index means in a list of some length, in words of 64 bits; negative indices
count from the end. -/
def position (index : Int64) (length : Nat) : Except HostFault Nat :=
  let count := Int64.ofNat length
  let resolved := if index < 0 then count + index else index
  if resolved < 0 || count ≤ resolved then fail ("index " ++ intText index ++ " out of range")
  else .ok resolved.toNatClampNeg

/-- The index that is the only argument, if there is one. -/
def indexArgument (inv : Invocation) : Except HostFault (Option Int64) := do
  inv.expectArity 0 1
  inv.args.head?.mapM asInt

/-- The position of the item that an index means, by default of the last one. -/
def positionOrLast (length : Nat) : Option Int64 → Except HostFault Nat
  | some index => position index length
  | none => .ok (length - 1)

/-- Removes the item at an index, by default the last one, and gives it. -/
def listPop (inv : Invocation) : Work Value := do
  let index ← indexArgument inv
  let items ← asList (← Work.receiver)
  if items.isEmpty then fail "pop from empty list"
  else
    let i ← positionOrLast items.length index
    match items[i]? with
    | some v =>
        Work.write (.list (items.eraseIdx i))
        return v
    | none => fail "pop from empty list"

/-- Adds the elements of the argument at the end. -/
def listExtend (inv : Invocation) : Work Value := do
  let extra ← elements (← inv.single)
  let items ← asList (← Work.receiver)
  Work.write (.list (items ++ extra))
  return .none

/-! ## Methods of maps -/

/-- The entries of a map. -/
def asMap : Value → Except HostFault (List (String × Value))
  | .map entries => .ok entries
  | v => .error (.type "map" v)

/-- The text of a string. -/
def asStr : Value → Except HostFault String
  | .str s => .ok s
  | v => .error (.type "str" v)

/-- The value under a key, else the second argument, else nothing. -/
def mapGet (inv : Invocation) : Work Value := do
  inv.expectArity 1 2
  match inv.args with
  | [] => fail "missing key"
  | key :: rest =>
      let key ← asStr key
      let entries ← asMap (← Work.receiver)
      return ((Assoc.find? entries key).orElse fun _ => rest.head?).getD .none

/-- The keys, in order of arrival. -/
def mapKeys (inv : Invocation) : Work Value := do
  inv.expectArity 0 0
  let entries ← asMap (← Work.receiver)
  return .list (entries.map fun e => .str e.1)

/-! ## Methods of strings -/

/-- A method of strings without arguments. -/
def strMap (f : String → String) (inv : Invocation) : Work Value := do
  inv.expectArity 0 0
  return .str (f (← asStr (← Work.receiver)))

/-- The separator that is the only argument, if there is one. -/
def separatorArgument (inv : Invocation) : Except HostFault (Option String) := do
  inv.expectArity 0 1
  match inv.args with
  | [] => return none
  | .none :: _ => return none
  | v :: _ => return some (← asStr v)

/-- The parts of a string between separators, or its words. -/
def strSplit (inv : Invocation) : Work Value := do
  let separator ← separatorArgument inv
  let text ← asStr (← Work.receiver)
  let parts :=
    match separator with
    | some s => Text.splitOn s text
    | none => Text.words text
  return .list (parts.map .str)

/-- The texts of strings. -/
def asStrs (items : List Value) : Except HostFault (List String) := items.mapM asStr

/-- The strings that the argument yields, with the receiver between neighbours. -/
def strJoin (inv : Invocation) : Work Value := do
  let parts ← elements (← inv.single)
  let separator ← asStr (← Work.receiver)
  return .str (Text.join separator (← asStrs parts))

end CallFlow.Host
