import CallFlow.Proofs.Arithmetic

/-!
# Ranges

The standard callable for ranges gives the arithmetic progression that begins at the start and
ends strictly before the end (`Registry.progresses_standard`), computed in whole numbers without a
limit (`Host.terms`).

A range is built number by number (`Host.rangeFrom`), and ends for one of two reasons.  The next
number is not before the end, or it does not fit a word, and then it is not before the end either,
since the end does fit.  So the numbers from any one on are the progression from there
(`Host.exists_rangeFrom`).
-/

namespace CallFlow

namespace Host

/-! ## The number of terms -/

/-- How many terms of a progression are strictly before its end, in the direction of its step. -/
def terms (start stop step : Int) : Nat := ⌈((stop - start : Int) : ℚ) / step⌉.toNat

/-- The terms of a progression, the first ones as many as are said. -/
def progression (start step : Int) (n : Nat) : List Int :=
  (List.range n).map fun k : Nat => start + k * step

/-- Is the number strictly before the end, in the direction of the step? -/
def Precedes (step stop n : Int) : Prop := (0 < step ∧ n < stop) ∨ (step < 0 ∧ stop < n)

variable {start stop step : Int} {n : Nat}

/-- **The terms that are counted are those before the end.** -/
theorem lt_terms_iff (hstep : step ≠ 0) (k : Nat) :
    k < terms start stop step ↔ Precedes step stop (start + k * step) := by
  have hceil : k < terms start stop step ↔ (k : ℚ) < ((stop - start : Int) : ℚ) / step := by
    rw [terms, Int.lt_toNat, Int.lt_ceil, Int.cast_natCast]
  rw [hceil]
  rcases Int.lt_or_gt_of_ne hstep with hneg | hpos
  · rw [lt_div_iff_of_neg (by exact_mod_cast hneg)]
    have hcast : ((stop - start : Int) : ℚ) < k * step ↔ stop - start < k * step := by
      exact_mod_cast Iff.rfl
    rw [hcast, Precedes]
    omega
  · rw [lt_div_iff₀ (by exact_mod_cast hpos)]
    have hcast : (k * step : ℚ) < ((stop - start : Int) : ℚ) ↔ k * step < stop - start := by
      exact_mod_cast Iff.rfl
    rw [hcast, Precedes]
    omega

/-- There is a term if the start is before the end. -/
theorem terms_pos_iff (hstep : step ≠ 0) :
    0 < terms start stop step ↔ Precedes step stop start := by
  rw [lt_terms_iff hstep, Nat.cast_zero, Int.zero_mul, Int.add_zero]

/-- Behind a term that is before the end there are the terms from the next one on. -/
theorem terms_eq_succ (hstep : step ≠ 0) (h : Precedes step stop start) :
    terms start stop step = terms (start + step) stop step + 1 := by
  have hlater :
      ∀ k, k + 1 < terms start stop step ↔ k < terms (start + step) stop step := fun k => by
    rw [lt_terms_iff hstep, lt_terms_iff hstep]
    have hterm : start + (k + 1 : Nat) * step = start + step + k * step := by
      rw [Nat.cast_succ, Int.add_mul]
      omega
    rw [hterm]
  have hpos := (terms_pos_iff hstep).2 h
  have hlast := hlater (terms start stop step - 1)
  have hbefore := hlater (terms start stop step - 2)
  omega

theorem progression_succ :
    progression start step (n + 1) = start :: progression (start + step) step n := by
  rw [progression, List.range_succ_eq_map, List.map_cons, List.map_map, progression]
  refine congrArg₂ _ (by simp) (List.map_congr_left fun k _ => ?_)
  show start + (k + 1 : Nat) * step = start + step + k * step
  rw [Nat.cast_succ, Int.add_mul]
  omega

/-! ## The loop -/

theorem isBefore_iff {step stop i : Int64} :
    isBefore step stop i = true ↔ Precedes step.toInt stop.toInt i.toInt := by
  simp only [isBefore, Precedes, Bool.or_eq_true, Bool.and_eq_true, decide_eq_true_eq,
    Int64.lt_iff_toInt_lt,
    Int64.toInt_zero]

/-- Behind the last number that fits there is none before the end. -/
theorem not_precedes_of_narrow? {step stop i : Int64}
    (hnext : narrow? (i.toInt + step.toInt) = none) :
    ¬ Precedes step.toInt stop.toInt (i.toInt + step.toInt) := by
  have hfits : ¬ Value.fitsInt (i.toInt + step.toInt) = true := fun h => by
    obtain ⟨z, hz, -⟩ := exists_narrow? h
    exact absurd (hnext.symm.trans hz) (by simp)
  rw [Value.fitsInt_iff] at hfits
  have hstop : -2 ^ 63 ≤ stop.toInt ∧ stop.toInt < 2 ^ 63 := ⟨stop.le_toInt, stop.toInt_lt⟩
  have hi : -2 ^ 63 ≤ i.toInt ∧ i.toInt < 2 ^ 63 := ⟨i.le_toInt, i.toInt_lt⟩
  unfold Precedes at *
  omega

/-- **The loop goes through the progression**: the numbers from one on are the terms that begin
there. -/
theorem exists_rangeFrom {step : Int64} (hstep : step ≠ 0) (stop i : Int64) (items : List Value) :
    ∃ numbers : List Int64, rangeFrom step stop i items = (numbers.map .int).reverse ++ items ∧
      numbers.map Int64.toInt = progression i.toInt step.toInt
        (terms i.toInt stop.toInt step.toInt) := by
  have hstep0 : step.toInt ≠ 0 := mt toInt_eq_zero_iff.1 hstep
  fun_induction rangeFrom step stop i items with
  | case1 i items hbefore next hnext ih =>
      obtain ⟨numbers, hrange, hnumbers⟩ := ih
      have hsum := toInt_of_narrow? hnext
      refine ⟨i :: numbers, ?_, ?_⟩
      · rw [hrange, List.map_cons, List.reverse_cons, List.append_assoc]
        rfl
      · rw [List.map_cons, hnumbers, hsum, terms_eq_succ hstep0 (isBefore_iff.1 hbefore),
          progression_succ]
  | case2 i items hbefore hnext =>
      have hprecedes := isBefore_iff.1 hbefore
      have hlast : terms (i.toInt + step.toInt) stop.toInt step.toInt = 0 :=
        Nat.eq_zero_of_not_pos (mt (terms_pos_iff hstep0).1 (not_precedes_of_narrow? hnext))
      refine ⟨[i], rfl, ?_⟩
      rw [terms_eq_succ hstep0 hprecedes, hlast]
      simp [progression]
  | case3 i items hbefore =>
      have hnone : terms i.toInt stop.toInt step.toInt = 0 :=
        Nat.eq_zero_of_not_pos (mt (terms_pos_iff hstep0).1 (mt isBefore_iff.2 hbefore))
      refine ⟨[], rfl, ?_⟩
      rw [hnone]
      rfl

end Host

namespace Registry

open Host (terms progression Precedes)

/-- The ranges between two ends in a step, whatever else the callable is given. -/
structure Progresses (r : Registry) (start stop step : Int64) (kwargs : List (String × Value))
    (receiver : Option Value) : Prop where
  /-- A range is the progression from its start, in as many terms as are before its end. -/
  progresses : step ≠ 0 → ∃ numbers : List Int64,
    r.answer? "range" ⟨[.int start, .int stop, .int step], kwargs, receiver⟩
      = some (.ok (.list (numbers.map .int))) ∧
    numbers.map Int64.toInt = progression start.toInt step.toInt
      (terms start.toInt stop.toInt step.toInt)
  counts : step ≠ 0 → ∀ k : Nat, k < terms start.toInt stop.toInt step.toInt ↔
    Precedes step.toInt stop.toInt (start.toInt + k * step.toInt)
  /-- Without a step, it is one. -/
  withoutStep : r.answer? "range" ⟨[.int start, .int stop], kwargs, receiver⟩
    = r.answer? "range" ⟨[.int start, .int stop, .int 1], kwargs, receiver⟩
  /-- Without a start, it is zero. -/
  withoutStart : r.answer? "range" ⟨[.int stop], kwargs, receiver⟩
    = r.answer? "range" ⟨[.int 0, .int stop, .int 1], kwargs, receiver⟩
  /-- There is no range in steps of zero. -/
  zeroStep : step = 0 → r.answer? "range" ⟨[.int start, .int stop, .int step], kwargs, receiver⟩
    = some (Host.fail "range step must not be zero")

theorem answer?_range {start stop step : Int64} {kwargs : List (String × Value)}
    {receiver : Option Value} :
    standard.answer? "range" ⟨[.int start, .int stop, .int step], kwargs, receiver⟩
      = some (if step = 0 then Host.fail "range step must not be zero"
        else .ok (.list (Host.rangeFrom step stop start []).reverse)) := rfl

/-- **A range is an arithmetic progression.** -/
theorem progresses_standard (start stop step : Int64) (kwargs : List (String × Value))
    (receiver : Option Value) :
    standard.Progresses start stop step kwargs receiver := by
  constructor
  case progresses =>
    intro hstep
    obtain ⟨numbers, hrange, hnumbers⟩ := Host.exists_rangeFrom hstep stop start []
    refine ⟨numbers, ?_, hnumbers⟩
    rw [answer?_range, if_neg hstep, hrange, List.append_nil, List.reverse_reverse]
  case counts => exact fun hstep k => Host.lt_terms_iff (mt Host.toInt_eq_zero_iff.1 hstep) k
  case withoutStep => rfl
  case withoutStart => rfl
  case zeroStep =>
    intro hstep
    rw [answer?_range, if_pos hstep]

/-- The term after the only one of this range does not fit a word. -/
example :
    standard.answer? "range" ⟨[.int (Int64.maxValue - 1), .int Int64.maxValue, .int 2], [], none⟩
    = some (.ok (.list [.int (Int64.maxValue - 1)])) := by cbv

end Registry

end CallFlow
