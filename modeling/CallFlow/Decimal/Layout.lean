import CallFlow.Decimal.Shortest

/-!
# Text of a float

The shortest digits of a float are laid out with a point or with an exponent.  Two layouts are in
use, one for messages and one for JSON; they differ in where the positional form ends, in the sign
of the exponent, and in which of two equally near shortest decimals they take.
-/

namespace CallFlow.Decimal

/-- The choices of a float format. -/
structure Layout where
  /-- The least exponent of the first digit that is written with a point. -/
  least : Int
  /-- The greatest exponent of the first digit that is written with a point. -/
  greatest : Int
  /-- Does a positive exponent get a plus sign? -/
  plus : Bool
  /-- Which of two equally near decimals is written? -/
  tie : Tie

/-- Messages write numbers from `0.0001` to below `10 ^ 16` with a point. -/
def Layout.message : Layout := ⟨-4, 15, false, .away⟩

/-- JSON writes numbers from `0.00001` to below `10 ^ 16` with a point. -/
def Layout.json : Layout := ⟨-5, 15, true, .toEven⟩

/-- A row of zeros. -/
def zeros (n : Nat) : List Char := List.replicate n '0'

/-- The digits of a natural number. -/
def digitsOf (n : Nat) : List Char := Nat.toDigits 10 n

/-- A decimal number in the given layout.  The positional form always has a digit on both sides of
the point. -/
def Layout.write (l : Layout) (d : Scaled) : List Char :=
  let ds := digitsOf d.digits
  let first : Int := d.exponent + ds.length - 1
  if l.least ≤ first && first ≤ l.greatest then
    if 0 ≤ d.exponent then ds ++ zeros d.exponent.toNat ++ ['.', '0']
    else if 0 ≤ first then
      ds.take (first.toNat + 1) ++ '.' :: ds.drop (first.toNat + 1)
    else ['0', '.'] ++ zeros (-first - 1).toNat ++ ds
  else
    let mantissa :=
      match ds with
      | [] => []
      | [c] => [c]
      | c :: rest => c :: '.' :: rest
    let sign := if first < 0 then ['-'] else if l.plus then ['+'] else []
    mantissa ++ 'e' :: sign ++ digitsOf first.natAbs

/-- The text of a finite float in the given layout. -/
def Layout.finite? (l : Layout) (x : Float) : Option String :=
  match Binary.ofFloat? x with
  | none => none
  | some b =>
      let body := if b.mantissa = 0 then ['0', '.', '0'] else l.write (b.shortest l.tie)
      some (String.ofList (if isNegative x then '-' :: body else body))

/-- The text of a float in messages. -/
def messageText (x : Float) : String :=
  match Layout.message.finite? x with
  | some s => s
  | none => if x.isNaN then "NaN" else if isNegative x then "-inf" else "inf"

end CallFlow.Decimal
