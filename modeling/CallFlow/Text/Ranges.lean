/-!
# Character ranges

A set of characters, given as a sorted list of closed ranges of code points.
-/

namespace CallFlow.Text

/-- Is the number in one of the ranges?  The ranges are in increasing order, so the search stops at
the first range that begins above the number. -/
def inRanges (n : Nat) : List (Nat × Nat) → Bool
  | [] => false
  | (lo, hi) :: rest => if n < lo then false else n ≤ hi || inRanges n rest

/-- A run of characters that are all moved by the same distance: every `step`-th one from `first` to
`last`. -/
structure Shift where
  first : Nat
  last : Nat
  step : Nat
  distance : Int

/-- Does the run hold the number? -/
def Shift.holds (s : Shift) (n : Nat) : Bool :=
  s.first ≤ n && n ≤ s.last && (n - s.first) % s.step == 0

/-- The code point that the runs move the number to, if one of them holds it.  The runs are in
increasing order of their first numbers. -/
def shifted? (n : Nat) : List Shift → Option Nat
  | [] => none
  | s :: rest =>
      if n < s.first then none
      else if s.holds n then some (n + s.distance).toNat
      else shifted? n rest

end CallFlow.Text
