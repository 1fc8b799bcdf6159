import CallFlow.Host.Standard
import Mathlib.Data.Rat.Floor

/-!
# Arithmetic on whole numbers

The arithmetic of the standard registry on whole numbers is exact or fails
(`Registry.reckons_standard`).  Sums, differences, products and negatives are the exact ones where
they fit a word of 64 bits.  Division rounds down, and its remainder has the sign of the divisor.

Quotient and remainder are not computed from each other: the quotient comes from the division
whose remainder is never negative (`Host.euclid?`), and the remainder from the one that rounds
towards zero.  Each is corrected in words of 64 bits.  A correction never leaves the range of a
word (`Host.toInt_sub_excess`, `Host.toInt_add_of_opposed`), and so both are what division by
`Int.fdiv` gives (`Host.toInt_floored`, `Host.toInt_remainder`).
-/

namespace CallFlow

/-! ## Words -/

theorem Value.fitsInt_iff {n : Int} : fitsInt n = true ↔ -2 ^ 63 ≤ n ∧ n < 2 ^ 63 := by
  simp only [fitsInt, Bool.and_eq_true, decide_eq_true_eq, Int64.toInt_minValue,
    Int64.toInt_maxValue]
  omega

namespace Host

variable {n : Int} {a b x y q r : Int64}

theorem exists_narrow? (h : Value.fitsInt n = true) : ∃ z, narrow? n = some z ∧ z.toInt = n := by
  have hsome : narrow? n = some (Int64.ofInt n) := if_pos h
  exact ⟨_, hsome, toInt_of_narrow? hsome⟩

theorem toInt_sub_of_fits (h : Value.fitsInt (a.toInt - b.toInt) = true) :
    (a - b).toInt = a.toInt - b.toInt := by
  obtain ⟨hmin, hmax⟩ := Value.fitsInt_iff.1 h
  rw [Int64.toInt_sub]
  exact Int.bmod_eq_of_le (by omega) (by omega)

theorem toInt_add_of_fits (h : Value.fitsInt (a.toInt + b.toInt) = true) :
    (a + b).toInt = a.toInt + b.toInt := by
  obtain ⟨hmin, hmax⟩ := Value.fitsInt_iff.1 h
  rw [Int64.toInt_add]
  exact Int.bmod_eq_of_le (by omega) (by omega)

theorem toInt_eq_zero_iff : a.toInt = 0 ↔ a = 0 := by
  rw [← Int64.toInt_inj, Int64.toInt_zero]

theorem toInt_neg_iff : a.toInt < 0 ↔ a < 0 := by
  rw [Int64.lt_iff_toInt_lt, Int64.toInt_zero]

/-! ## Quotients -/

/-- A quotient by a negative number is greater than the least number. -/
theorem lt_ediv_of_neg (hneg : y.toInt < 0) : -2 ^ 63 < x.toInt / y.toInt := by
  have hx : x.toInt < 2 ^ 63 := x.toInt_lt
  have hmax : x.toInt / -y.toInt < 2 ^ 63 := Int.ediv_lt_of_lt_mul (by omega) (by omega)
  rw [Int.ediv_neg] at hmax
  omega

/-- One quotient does not fit, that of the least number by minus one. -/
theorem fitsInt_ediv (hy : y ≠ 0) (hedge : ¬ (x = Int64.minValue ∧ y = -1)) :
    Value.fitsInt (x.toInt / y.toInt) = true := by
  have hx : -2 ^ 63 ≤ x.toInt ∧ x.toInt < 2 ^ 63 := ⟨x.le_toInt, x.toInt_lt⟩
  have hy0 : y.toInt ≠ 0 := mt toInt_eq_zero_iff.1 hy
  rw [Value.fitsInt_iff]
  rcases Int.lt_or_gt_of_ne hy0 with hneg | hpos
  · -- the quotient is the negative of one by a positive number
    have hopposite : -2 ^ 63 + 1 ≤ x.toInt / -y.toInt := by
      refine Int.le_ediv_of_mul_le (by omega) ?_
      by_cases hone : y.toInt = -1
      · have hleast : x.toInt ≠ -2 ^ 63 := fun hx =>
          hedge ⟨Int64.toInt.inj hx, Int64.toInt.inj hone⟩
        omega
      · omega
    rw [Int.ediv_neg] at hopposite
    exact ⟨Int.le_of_lt (lt_ediv_of_neg hneg), by omega⟩
  · have hmin : -2 ^ 63 ≤ x.toInt / y.toInt := Int.le_ediv_of_mul_le hpos (by omega)
    have hmax : x.toInt / y.toInt < 2 ^ 63 := Int.ediv_lt_of_lt_mul hpos (by omega)
    exact ⟨hmin, hmax⟩

/-- A quotient and its remainder are exact. -/
theorem toInt_of_euclid? (h : euclid? x y = some (q, r)) :
    y ≠ 0 ∧ q.toInt = x.toInt / y.toInt ∧ r.toInt = x.toInt % y.toInt := by
  unfold euclid? at h
  split at h
  · cases h
  · rename_i hy
    obtain ⟨q', hq, heq⟩ := Option.map_eq_some_iff.1 h
    obtain ⟨rfl, rfl⟩ := Prod.mk.inj heq
    have hy0 : y.toInt ≠ 0 := mt toInt_eq_zero_iff.1 hy
    have hmin : 0 ≤ x.toInt % y.toInt := Int.emod_nonneg _ hy0
    have hmax : x.toInt % y.toInt < y.toInt.natAbs := Int.emod_lt _ hy0
    have hword : -2 ^ 63 ≤ y.toInt ∧ y.toInt < 2 ^ 63 := ⟨y.le_toInt, y.toInt_lt⟩
    exact ⟨hy, toInt_of_narrow? hq, Int64.toInt_ofInt_of_le (by omega) (by omega)⟩

theorem exists_euclid? (hy : y ≠ 0) (hedge : ¬ (x = Int64.minValue ∧ y = -1)) :
    ∃ q r, euclid? x y = some (q, r) := by
  obtain ⟨q, hq, -⟩ := exists_narrow? (fitsInt_ediv hy hedge)
  exact ⟨q, _, by rw [euclid?, if_neg hy, hq]; rfl⟩

theorem toInt_excess : (excess y r).toInt = if y.toInt < 0 ∧ r.toInt ≠ 0 then 1 else 0 := by
  by_cases hneg : y < 0 <;> by_cases hzero : r = 0 <;>
    simp [excess, toInt_neg_iff, toInt_eq_zero_iff, hneg, hzero]

/-- **Lowering a quotient stays in the range of a word.** -/
theorem toInt_sub_excess (h : euclid? x y = some (q, r)) :
    (q - excess y r).toInt = q.toInt - (excess y r).toInt := by
  obtain ⟨-, hq, -⟩ := toInt_of_euclid? h
  refine toInt_sub_of_fits (Value.fitsInt_iff.2 ?_)
  have hword : -2 ^ 63 ≤ q.toInt ∧ q.toInt < 2 ^ 63 := ⟨q.le_toInt, q.toInt_lt⟩
  rw [toInt_excess]
  split
  · rename_i hlowered
    -- only quotients by negative numbers are lowered, and these are not the least number
    have hleast := lt_ediv_of_neg (x := x) hlowered.1
    omega
  · omega

theorem toInt_floored (h : euclid? x y = some (q, r)) :
    (q - excess y r).toInt = x.toInt.fdiv y.toInt := by
  obtain ⟨hy, hq, hr⟩ := toInt_of_euclid? h
  have hy0 : y.toInt ≠ 0 := mt toInt_eq_zero_iff.1 hy
  have hcases : y.toInt < 0 ∧ r.toInt ≠ 0 ↔ ¬ (0 ≤ y.toInt ∨ y.toInt ∣ x.toInt) := by
    rw [hr, Int.dvd_iff_emod_eq_zero]
    omega
  rw [toInt_sub_excess h, toInt_excess, hq, Int.fdiv_eq_ediv]
  simp only [hcases, ite_not]

/-! ## Remainders -/

theorem opposed_iff : opposed y r = true ↔ r.toInt ≠ 0 ∧ (r.toInt < 0 ↔ ¬ y.toInt < 0) := by
  by_cases hneg : y < 0 <;> by_cases hless : r < 0 <;> by_cases hzero : r = 0 <;>
    simp [opposed, toInt_neg_iff, toInt_eq_zero_iff, hneg, hless, hzero]

/-- **Giving a remainder the sign of the divisor stays in the range of a word.** -/
theorem toInt_add_of_opposed (h : opposed y r = true) : (r + y).toInt = r.toInt + y.toInt := by
  obtain ⟨-, hsigns⟩ := opposed_iff.1 h
  have hr : -2 ^ 63 ≤ r.toInt ∧ r.toInt < 2 ^ 63 := ⟨r.le_toInt, r.toInt_lt⟩
  have hy : -2 ^ 63 ≤ y.toInt ∧ y.toInt < 2 ^ 63 := ⟨y.le_toInt, y.toInt_lt⟩
  refine toInt_add_of_fits (Value.fitsInt_iff.2 ?_)
  omega

theorem toInt_remainder (hy : y ≠ 0) :
    (if opposed y (x % y) then x % y + y else x % y).toInt = x.toInt.fmod y.toInt := by
  have hy0 : y.toInt ≠ 0 := mt toInt_eq_zero_iff.1 hy
  have hdvd : y.toInt ∣ x.toInt ↔ x.toInt.tmod y.toInt = 0 := Int.dvd_iff_tmod_eq_zero
  have hopposed := opposed_iff (y := y) (r := x % y)
  -- a remainder that rounds towards zero has the sign of the dividend
  have hnonneg : 0 ≤ x.toInt → 0 ≤ x.toInt.tmod y.toInt := Int.tmod_nonneg _
  have hnonpos : x.toInt < 0 → x.toInt.tmod y.toInt ≤ 0 := fun hx => by
    have h := Int.tmod_nonneg (a := -x.toInt) y.toInt (by omega)
    rw [Int.neg_tmod] at h
    omega
  rw [Int64.toInt_mod] at hopposed
  rw [Int.fmod_eq_tmod]
  split
  · rename_i h
    rw [toInt_add_of_opposed h, Int64.toInt_mod]
    obtain ⟨hne, hsigns⟩ := hopposed.1 h
    rw [if_neg (mt hdvd.1 hne)]
    split <;> split <;> omega
  · rename_i h
    rw [Int64.toInt_mod]
    have hsame : x.toInt.tmod y.toInt = 0 ∨ (x.toInt.tmod y.toInt < 0 ↔ y.toInt < 0) := by
      have hnot := mt hopposed.2 h
      omega
    by_cases hzero : y.toInt ∣ x.toInt
    · rw [if_pos hzero]
      omega
    · rw [if_neg hzero]
      have hne := mt hdvd.2 hzero
      split <;> split <;> omega

/-! ## Division by rounding down -/

theorem fdiv_eq_floor (a b : Int) : a.fdiv b = ⌊(a : ℚ) / b⌋ := by
  have hnat : ∀ (a : Int) (b : Nat), a.fdiv b = ⌊(a : ℚ) / b⌋ := fun a b => by
    rw [Int.fdiv_eq_ediv_of_nonneg a (Int.natCast_nonneg b), Rat.floor_intCast_div_natCast]
  rcases Int.le_total 0 b with hb | hb
  · lift b to Nat using hb
    simpa using hnat a b
  · obtain ⟨d, hd⟩ := Int.eq_ofNat_of_zero_le (Int.neg_nonneg_of_nonpos hb)
    obtain rfl : b = -d := by omega
    have hsame := hnat (-a) d
    rw [← Int.neg_fdiv_neg, Int.neg_neg, hsame, Int.cast_neg, Int.cast_neg, Int.cast_natCast,
      neg_div, div_neg]

/-- The remainder of division by rounding down is zero or has the sign of the divisor, and is
smaller. -/
theorem sign_fmod (a : Int) {b : Int} (hb : b ≠ 0) :
    (a.fmod b = 0 ∨ (a.fmod b).sign = b.sign) ∧ |a.fmod b| < |b| := by
  rcases Int.lt_or_gt_of_ne hb with hneg | hpos
  · have hopposite : a.fmod b = -(-a).fmod (-b) := by rw [Int.neg_fmod_neg, Int.neg_neg]
    have hmin : 0 ≤ (-a).fmod (-b) := Int.fmod_nonneg_of_pos _ (by omega)
    have hmax : (-a).fmod (-b) < -b := Int.fmod_lt_of_pos _ (by omega)
    have hnonpos : a.fmod b ≤ 0 := by omega
    rw [abs_of_nonpos hnonpos, abs_of_neg hneg]
    refine ⟨(Int.lt_or_eq_of_le hnonpos).symm.imp_right fun hless => ?_, by omega⟩
    rw [Int.sign_eq_neg_one_of_neg hless, Int.sign_eq_neg_one_of_neg hneg]
  · have hmin : 0 ≤ a.fmod b := Int.fmod_nonneg_of_pos _ hpos
    have hmax : a.fmod b < b := Int.fmod_lt_of_pos _ hpos
    rw [abs_of_nonneg hmin, abs_of_pos hpos]
    refine ⟨(Int.lt_or_eq_of_le hmin).symm.imp Eq.symm fun hless => ?_, hmax⟩
    rw [Int.sign_eq_one_of_pos hless, Int.sign_eq_one_of_pos hpos]

end Host

/-! ## The standard registry -/

namespace Registry

/-- What the callable under a path answers, if there is one. -/
def answer? (r : Registry) (path : String) (inv : Invocation) : Option (Except HostFault Value) :=
  (r.resolve path).map fun f => (inv.send f).result

/-- The answer is the number if it fits a word, and else a failure that shows the operation. -/
def IsExact (answer : Option (Except HostFault Value)) (n : Int) (operation : String) : Prop :=
  if Value.fitsInt n then ∃ z, answer = some (.ok (.int z)) ∧ z.toInt = n
  else answer = some (Host.fail ("integer overflow in " ++ operation))

theorem isExact_exact (n : Int) (operation : String) :
    IsExact (some (Host.exact n operation)) n operation := by
  unfold IsExact Host.exact
  split
  · rename_i hfits
    obtain ⟨z, hz, hn⟩ := Host.exists_narrow? hfits
    exact ⟨z, by rw [hz], hn⟩
  · rename_i hfits
    rw [Host.narrow?, if_neg hfits]

/-- The arithmetic on two whole numbers, whatever else the callables are given. -/
structure Reckons (r : Registry) (x y : Int64) (kwargs : List (String × Value))
    (receiver : Option Value) : Prop where
  add : IsExact (r.answer? "add" ⟨[.int x, .int y], kwargs, receiver⟩) (x.toInt + y.toInt)
    (Host.operationText x y "+")
  sub : IsExact (r.answer? "sub" ⟨[.int x, .int y], kwargs, receiver⟩) (x.toInt - y.toInt)
    (Host.operationText x y "-")
  mul : IsExact (r.answer? "mul" ⟨[.int x, .int y], kwargs, receiver⟩) (x.toInt * y.toInt)
    (Host.operationText x y "*")
  neg : IsExact (r.answer? "neg" ⟨[.int x], kwargs, receiver⟩) (-x.toInt) "negation"
  /-- There is no division by zero. -/
  zero : y = 0 →
    r.answer? "floordiv" ⟨[.int x, .int y], kwargs, receiver⟩ =
      some (Host.fail "integer division by zero") ∧
    r.answer? "mod" ⟨[.int x, .int y], kwargs, receiver⟩ = some (Host.fail "integer modulo by zero")
  /-- Of the least number and minus one the quotient does not fit, but the remainder does. -/
  edge : x = Int64.minValue → y = -1 →
    r.answer? "floordiv" ⟨[.int x, .int y], kwargs, receiver⟩
      = some (Host.fail ("integer overflow in " ++ Host.operationText x y "//")) ∧
    r.answer? "mod" ⟨[.int x, .int y], kwargs, receiver⟩ = some (.ok (.int 0))
  /-- Every other division is exact: the quotient is rounded down, and the remainder has the sign of
  the divisor. -/
  divides : y ≠ 0 → ¬ (x = Int64.minValue ∧ y = -1) → ∃ q m : Int64,
    r.answer? "floordiv" ⟨[.int x, .int y], kwargs, receiver⟩ = some (.ok (.int q)) ∧
    r.answer? "mod" ⟨[.int x, .int y], kwargs, receiver⟩ = some (.ok (.int m)) ∧
    q.toInt = ⌊(x.toInt : ℚ) / y.toInt⌋ ∧
    (m = 0 ∨ m.toInt.sign = y.toInt.sign) ∧ |m.toInt| < |y.toInt| ∧
    q.toInt * y.toInt + m.toInt = x.toInt
  /-- The difference by which a quotient is corrected fits a word. -/
  lowers : ∀ q m, Host.euclid? x y = some (q, m) →
    (q - Host.excess y m).toInt = q.toInt - (Host.excess y m).toInt
  /-- The sum by which a remainder is corrected fits a word. -/
  turns : Host.opposed y (x % y) = true → (x % y + y).toInt = (x % y).toInt + y.toInt

variable {x y : Int64} {kwargs : List (String × Value)} {receiver : Option Value}

theorem answer?_floordiv {q m : Int64} (h : Host.euclid? x y = some (q, m)) :
    standard.answer? "floordiv" ⟨[.int x, .int y], kwargs, receiver⟩ =
      some (.ok (.int (q - Host.excess y m))) := by
  obtain ⟨hy, -, -⟩ := Host.toInt_of_euclid? h
  show some (Host.floorDiv (.int x) (.int y)) = _
  rw [Host.floorDiv, if_neg hy, h]

theorem answer?_mod (hy : y ≠ 0) :
    standard.answer? "mod" ⟨[.int x, .int y], kwargs, receiver⟩
      = some (.ok (.int (if Host.opposed y (x % y) then x % y + y else x % y))) := by
  show some (Host.modulo (.int x) (.int y)) = _
  rw [Host.modulo, if_neg hy]

/-- **Arithmetic on whole numbers is exact or fails.** -/
theorem reckons_standard (x y : Int64) (kwargs : List (String × Value)) (receiver : Option Value) :
    standard.Reckons x y kwargs receiver := by
  constructor
  case add => exact isExact_exact _ _
  case sub => exact isExact_exact _ _
  case mul => exact isExact_exact _ _
  case neg => exact isExact_exact _ _
  case zero =>
    rintro rfl
    exact ⟨rfl, rfl⟩
  case edge =>
    rintro rfl rfl
    exact ⟨rfl, rfl⟩
  case divides =>
    intro hy hedge
    have hy0 : y.toInt ≠ 0 := mt Host.toInt_eq_zero_iff.1 hy
    obtain ⟨q, m, hqm⟩ := Host.exists_euclid? hy hedge
    have hquotient := Host.toInt_floored hqm
    have hremainder := Host.toInt_remainder (x := x) hy
    obtain ⟨hsign, hless⟩ := Host.sign_fmod x.toInt hy0
    refine ⟨_, _, answer?_floordiv hqm, answer?_mod hy, ?_, ?_, ?_, ?_⟩
    · rw [hquotient, Host.fdiv_eq_floor]
    · rwa [← Host.toInt_eq_zero_iff, hremainder]
    · rwa [hremainder]
    · rw [hquotient, hremainder, Int.fdiv_mul_add_fmod]
  case lowers => exact fun q m h => Host.toInt_sub_excess h
  case turns => exact Host.toInt_add_of_opposed

/-- The quotient is rounded down on either side of zero. -/
example : standard.answer? "floordiv" ⟨[.int (-7), .int 2], [], none⟩ = some (.ok (.int (-4))) ∧
    standard.answer? "floordiv" ⟨[.int 7, .int (-2)], [], none⟩ = some (.ok (.int (-4))) :=
      ⟨rfl, rfl⟩

end Registry

end CallFlow
