/-!
# The shortest decimal of a binary float

A finite float is `m · 2 ^ q`.  Among the decimals that round to it, the shortest lies on the
coarsest decimal grid that has a point in the float's rounding interval; of two such points the
nearer one is taken, and `Tie` decides between two that are equally near.  `shortest` searches the
grids from coarse to fine in exact arithmetic on natural numbers.
-/

namespace CallFlow.Decimal

/-- A non-negative decimal number: `digits · 10 ^ exponent`. -/
structure Scaled where
  digits : Nat
  exponent : Int
  deriving DecidableEq, Repr

/-- A non-negative binary number: `mantissa · 2 ^ exponent`.  `narrow` says that the next smaller
float is half as far away as the next larger one. -/
structure Binary where
  mantissa : Nat
  exponent : Int
  narrow : Bool
  deriving DecidableEq, Repr

/-- Which of two equally near points of a grid is taken. -/
inductive Tie where
  /-- The even one. -/
  | toEven
  /-- The larger one. -/
  | away
  deriving DecidableEq, Repr

/-- The point that is taken of two neighbours, of which the smaller one is given. -/
def Tie.pick : Tie → Nat → Nat
  | .toEven, below => if below % 2 = 0 then below else below + 1
  | .away, below => below + 1

/-- A power of two. -/
def twoTo (n : Nat) : Nat := Nat.pow 2 n

/-- A power of ten. -/
def tenTo (n : Nat) : Nat := Nat.pow 10 n

/-- The absolute value of a finite float; nothing for infinities and for what is not a number. -/
def Binary.ofFloat? (x : Float) : Option Binary :=
  let bits : Nat := x.toBits.toNat
  let fraction : Nat := bits % twoTo 52
  let field : Nat := bits / twoTo 52 % twoTo 11
  if field = 2047 then none
  else if field = 0 then some ⟨fraction, -1074, false⟩
  else some ⟨twoTo 52 + fraction, (field : Int) - 1075, fraction == 0 && field != 1⟩

/-- Is the sign bit set? -/
def isNegative (x : Float) : Bool := x.toBits.toNat / twoTo 63 == 1

/-- `2 ^ e` as a fraction of natural numbers. -/
def twoPower (e : Int) : Nat × Nat := (twoTo e.toNat, twoTo (-e).toNat)

/-- `10 ^ e` as a fraction of natural numbers. -/
def tenPower (e : Int) : Nat × Nat := (tenTo e.toNat, tenTo (-e).toNat)

/-- Removes zeros at the end of the digits, at most `fuel` of them. -/
def Scaled.trim : (fuel : Nat) → Scaled → Scaled
  | 0, d => d
  | fuel + 1, d =>
      if d.digits ≠ 0 ∧ d.digits % 10 = 0 then trim fuel ⟨d.digits / 10, d.exponent + 1⟩ else d

/-- The nearest point of the grid `10 ^ g` that lies in the rounding interval of the float, if one
does.  All quantities are in quarters of `2 ^ b.exponent`; the ends belong to the interval when the
mantissa is even. -/
def Binary.onGrid? (tie : Tie) (b : Binary) (g : Int) : Option Nat :=
  let (twoUp, twoDown) := twoPower (b.exponent - 2)
  let (tenUp, tenDown) := tenPower g
  let scale := twoUp * tenDown
  let unit := tenUp * twoDown
  let value := 4 * b.mantissa * scale
  let low := (4 * b.mantissa - if b.narrow then 1 else 2) * scale
  let high := (4 * b.mantissa + 2) * scale
  let inside (n : Nat) : Bool :=
    let point := n * unit
    if b.mantissa % 2 = 0 then low ≤ point && point ≤ high else low < point && point < high
  let below := value / unit
  let above := below + 1
  match inside below, inside above with
  | true, true =>
      let toBelow := value - below * unit
      let toAbove := above * unit - value
      if toBelow < toAbove then some below
      else if toAbove < toBelow then some above
      else some (tie.pick below)
  | true, false => some below
  | false, true => some above
  | false, false => none

/-- Searches the grids `10 ^ g`, `10 ^ (g - 1)`, … for one with a point in the rounding interval. -/
def Binary.search (tie : Tie) (b : Binary) : (fuel : Nat) → (g : Int) → Option Scaled
  | 0, _ => none
  | fuel + 1, g =>
      match b.onGrid? tie g with
      | some n => some ⟨n, g⟩
      | none => b.search tie fuel (g - 1)

/-- The shortest decimal that rounds to the binary number, without zeros at its end.  The search
starts above the number's own size, and twenty steps below that every grid has a hit. -/
def Binary.shortest (tie : Tie) (b : Binary) : Scaled :=
  if b.mantissa = 0 then ⟨0, 0⟩
  else
    let start : Int := ((Nat.log2 b.mantissa + 1 : Int) + b.exponent) * 30103 / 100000 + 1
    match b.search tie 24 start with
    | some d => d.trim 20
    | none => ⟨b.mantissa, 0⟩

end CallFlow.Decimal
