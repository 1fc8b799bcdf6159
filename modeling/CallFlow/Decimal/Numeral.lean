/-!
# Numerals

A decimal numeral with an optional fraction and exponent, and two readings of it as a float.

`Numeral.nearest` is the float nearest to the number.  `Numeral.scaled?` is quicker and coarser,
and is what JSON text is read with: the first digits that fit 64 bits are taken as one number,
rounded to a float, and multiplied or divided by a power of ten.
-/

namespace CallFlow.Decimal

/-- The parts of a numeral: digits before and after the point, and the exponent. -/
structure Numeral where
  negative : Bool
  whole : List Nat
  fraction : List Nat
  exponent : Int

/-- Splits off the digits at the front. -/
def spanDigits : List Char → List Nat × List Char
  | [] => ([], [])
  | c :: rest =>
      if c.isDigit then
        let (ds, after) := spanDigits rest
        ((c.toNat - 48) :: ds, after)
      else ([], c :: rest)

/-- The number that digits denote. -/
def ofDigits (ds : List Nat) : Nat := ds.foldl (fun n d => 10 * n + d) 0

/-- Splits off the exponent at the front, if there is one; nothing if a mark has no digits after
it. -/
def exponent? : List Char → Option (Option Int × List Char)
  | c :: rest =>
      if c = 'e' || c = 'E' then
        let (negative, rest) :=
          match rest with
          | '-' :: r => (true, r)
          | '+' :: r => (false, r)
          | r => (false, r)
        match spanDigits rest with
        | ([], _) => none
        | (ds, after) => some (some (if negative then -(ofDigits ds : Int) else ofDigits ds), after)
      else some (none, c :: rest)
  | [] => some (none, [])

/-- A power of ten as a float. -/
def floatTenPower (e : Nat) : Float := Float.ofScientific 1 false e

/-- The sign of the numeral, put on a float. -/
def Numeral.signed (n : Numeral) (x : Float) : Float := if n.negative then -x else x

/-- The float nearest to the numeral; a tie goes to the even neighbour. -/
def Numeral.nearest (n : Numeral) : Float :=
  let coefficient := ofDigits (n.whole ++ n.fraction)
  let e : Int := n.exponent - n.fraction.length
  n.signed (Float.ofScientific coefficient (e < 0) e.natAbs)

/-- Takes digits into a coefficient while it fits 64 bits.  The result has the coefficient and the
number of digits taken. -/
def absorb : (coefficient : Nat) → List Nat → Nat × Nat
  | c, [] => (c, 0)
  | c, d :: rest =>
      if 10 * c + d < UInt64.size then
        let (c', taken) := absorb (10 * c + d) rest
        (c', taken + 1)
      else (c, 0)

/-- A coefficient times a power of ten, computed in floating point; nothing if it is out of range.
Below `10 ^ -308` the power is applied in two steps. -/
def scale? (coefficient : Nat) (e : Int) : Option Float :=
  let x := Float.ofScientific coefficient false 0
  if 308 < e then if coefficient = 0 then some x else none
  else if 0 ≤ e then
    let y := x * floatTenPower e.toNat
    if y.isInf then none else some y
  else if -308 ≤ e then some (x / floatTenPower (-e).toNat)
  else some (x / floatTenPower 308 / floatTenPower (min (-e - 308) 308).toNat)

/-- The float that scaling gives for the numeral, if it is in range. -/
def Numeral.scaled? (n : Numeral) : Option Float :=
  let (whole, wholeTaken) := absorb 0 n.whole
  let (coefficient, fractionTaken) := absorb whole n.fraction
  let e : Int := n.exponent + (n.whole.length - wholeTaken : Int) - fractionTaken
  (scale? coefficient e).map n.signed

/-- Reads a float as messages write it: a numeral, or one of the names of the other values. -/
def readMessage? (s : String) : Option Float :=
  match s with
  | "NaN" => some (0.0 / 0.0)
  | "inf" => some (1.0 / 0.0)
  | "-inf" => some (-1.0 / 0.0)
  | _ =>
      let (negative, cs) :=
        match s.toList with
        | '-' :: r => (true, r)
        | '+' :: r => (false, r)
        | r => (false, r)
      let (whole, cs) := spanDigits cs
      let (fraction, cs) :=
        match cs with
        | '.' :: r => spanDigits r
        | r => ([], r)
      match exponent? cs with
      | some (e, []) =>
          if whole.isEmpty && fraction.isEmpty then none
          else some (Numeral.nearest ⟨negative, whole, fraction, e.getD 0⟩)
      | _ => none

end CallFlow.Decimal
