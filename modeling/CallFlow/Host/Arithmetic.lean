import CallFlow.Host.Basic
import CallFlow.Value.Json

/-!
# Arithmetic and comparison

Whole numbers are computed exactly, and a result that does not fit 64 bits is a failure.  If one
operand is not a whole number, both are taken as floats.  The quotient that is rounded down and
its remainder are corrected from other quotients and remainders, in words of 64 bits.
-/

namespace CallFlow.Host

/-- A failure with a message. -/
def fail {α : Type} (message : String) : Except HostFault α := .error (.failed message)

/-- The 64-bit number of an exact result, if it fits. -/
def narrow? (n : Int) : Option Int64 := if Value.fitsInt n then some (Int64.ofInt n) else none

theorem toInt_of_narrow? {n : Int} {r : Int64} (h : narrow? n = some r) : r.toInt = n := by
  unfold narrow? at h
  split at h
  · rename_i hfits
    obtain rfl := Option.some.inj h
    obtain ⟨hmin, hmax⟩ : Int64.minValue.toInt ≤ n ∧ n ≤ Int64.maxValue.toInt := by
      simpa [Value.fitsInt] using hfits
    exact Int64.toInt_ofInt_of_le hmin (Int.lt_add_one_of_le hmax)
  · cases h

/-- An exact result as a value, or a failure that shows the operation. -/
def exact (n : Int) (operation : String) : Except HostFault Value :=
  match narrow? n with
  | some r => .ok (.int r)
  | none => fail ("integer overflow in " ++ operation)

/-- An operation on two numbers, in words. -/
def operationText (x y : Int64) (symbol : String) : String :=
  intText x ++ " " ++ symbol ++ " " ++ intText y

/-- A number, or a truth value, as a float. -/
def asFloat : Value → Except HostFault Float
  | .int n => .ok (Value.floatOfInt n.toInt)
  | .float x => .ok x
  | .bool b => .ok (if b then 1.0 else 0.0)
  | v => .error (.type "number" v)

/-- An operation on whole numbers, or else on floats. -/
def arith (onInts : Int → Int → Int) (onFloats : Float → Float → Float) (symbol : String) :
    Value → Value → Except HostFault Value
  | .int x, .int y => exact (onInts x.toInt y.toInt) (operationText x y symbol)
  | a, b => do
      let x ← asFloat a
      let y ← asFloat b
      return .float (onFloats x y)

/-- The sum of two numbers, or two strings or lists one after the other. -/
def add : Value → Value → Except HostFault Value
  | .str a, .str b => .ok (.str (a ++ b))
  | .list as, .list bs => .ok (.list (as ++ bs))
  | a, b => arith (· + ·) (· + ·) "+" a b

/-- The difference of two numbers. -/
def sub (a b : Value) : Except HostFault Value := arith (· - ·) (· - ·) "-" a b

/-- A string several times in a row. -/
def repeatText (s : String) (times : Nat) : String :=
  if s.isEmpty then "" else String.join (List.replicate times s)

/-- A string as often as a number says, if it does not grow beyond what memory can address. -/
def repeated (s : String) (n : Int64) : Except HostFault Value :=
  let times := n.toInt.toNat
  if s.utf8ByteSize * times ≤ Int64.maxValue.toInt.toNat then .ok (.str (repeatText s times))
  else
    fail ("repeated string too long (" ++ toString s.utf8ByteSize ++ " * " ++ intText n ++ ")")

/-- The product of two numbers, or a string repeated. -/
def mul : Value → Value → Except HostFault Value
  | .str s, .int n => repeated s n
  | .int n, .str s => repeated s n
  | a, b => arith (· * ·) (· * ·) "*" a b

/-- The quotient of two numbers as a float. -/
def trueDiv (a b : Value) : Except HostFault Value := do
  let divisor ← asFloat b
  if divisor == 0.0 then fail "division by zero"
  else return .float ((← asFloat a) / divisor)

/-- The quotient and the remainder of the division whose remainder is never negative.  There is none
by zero, and none whose quotient does not fit. -/
def euclid? (x y : Int64) : Option (Int64 × Int64) :=
  if y = 0 then none
  else (narrow? (x.toInt / y.toInt)).map fun q => (q, Int64.ofInt (x.toInt % y.toInt))

/-- What the quotient of such a division by `y` with remainder `r` is too great by, to be rounded
down. -/
def excess (y r : Int64) : Int64 := if y < 0 && r != 0 then 1 else 0

/-- The quotient of two numbers, rounded down. -/
def floorDiv : Value → Value → Except HostFault Value
  | .int x, .int y =>
      if y = 0 then fail "integer division by zero"
      else
        match euclid? x y with
        | some (q, r) => .ok (.int (q - excess y r))
        | none => fail ("integer overflow in " ++ operationText x y "//")
  | a, b => do
      let divisor ← asFloat b
      if divisor == 0.0 then fail "division by zero"
      else return .float ((← asFloat a) / divisor).floor

/-- Has the remainder `r`, which has the sign of the dividend, another sign than the divisor? -/
def opposed (y r : Int64) : Bool := r != 0 && decide (r < 0) != decide (y < 0)

/-- The remainder of the quotient rounded down, which has the sign of the divisor. -/
def modulo : Value → Value → Except HostFault Value
  | .int x, .int y =>
      if y = 0 then fail "integer modulo by zero"
      else
        let r := x % y
        .ok (.int (if opposed y r then r + y else r))
  | a, b => do
      let x ← asFloat a
      let y ← asFloat b
      if y == 0.0 then fail "modulo by zero"
      else return .float (x - y * (x / y).floor)

/-- The negative of a number. -/
def neg : Value → Except HostFault Value
  | .int n => exact (-n.toInt) "negation"
  | .float x => .ok (.float (-x))
  | v => .error (.type "number" v)

/-- How two floats compare, unless one is not a number. -/
def compareFloats? (x y : Float) : Option Ordering :=
  if x < y then some .lt else if x == y then some .eq else if y < x then some .gt else none

/-- How two values compare: whole numbers and strings exactly, all else as floats. -/
def order : Value → Value → Except HostFault Ordering
  | .int x, .int y => .ok (compare x.toInt y.toInt)
  | .str a, .str b => .ok (if a < b then .lt else if a = b then .eq else .gt)
  | a, b => do
      let x ← asFloat a
      let y ← asFloat b
      match compareFloats? x y with
      | some o => return o
      | none => fail "comparison with NaN"

/-- A comparison, from the orders in which it holds. -/
def comparison (holds : Ordering → Bool) (a b : Value) : Except HostFault Value := do
  return .bool (holds (← order a b))

end CallFlow.Host
