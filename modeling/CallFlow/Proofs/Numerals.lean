import CallFlow.Json.Parser
import CallFlow.Json.Printer

/-!
# Numerals that are read where they stand

A numeral ends where something else begins (`Decimal.Stops`), so that it is read in the same way
in every text (`Json.number?_append`).  Whole numbers and finite floats are written as numerals
(`Json.number?_digitsOf`, `Json.floatText_cases`).
-/

namespace CallFlow

namespace Decimal

/-! ## Digits -/

/-- The number of a digit. -/
def digitValue (c : Char) : Nat := c.toNat - 48

/-- Are there digits and nothing else? -/
structure AreDigits (cs : List Char) : Prop where
  ne_nil : cs ≠ []
  all : ∀ c ∈ cs, c.isDigit = true

theorem areDigits_zero : AreDigits ['0'] where
  ne_nil := List.cons_ne_nil _ _
  all := List.forall_mem_singleton.2 rfl

theorem AreDigits.append {cs cs' : List Char} (h : AreDigits cs)
    (h' : ∀ c ∈ cs', c.isDigit = true) :
    AreDigits (cs ++ cs') where
  ne_nil := List.append_ne_nil_of_left_ne_nil h.ne_nil _
  all c hc := (List.mem_append.1 hc).elim (h.all c) (h' c)

/-- No digits follow. -/
def EndsDigits (rest : List Char) : Prop := ∀ c ∈ rest.head?, c.isDigit = false

theorem spanDigits_append {cs rest : List Char} (hcs : ∀ c ∈ cs, c.isDigit = true)
    (hrest : EndsDigits rest) :
    spanDigits (cs ++ rest) = (cs.map digitValue, rest) := by
  induction cs with
  | nil =>
      cases rest with
      | nil => rfl
      | cons c rest =>
          have hc : c.isDigit = false := hrest c (by simp)
          simp [spanDigits, hc]
  | cons c cs ih =>
      have hc : c.isDigit = true := hcs c (by simp)
      have hrest := ih fun c' hc' => hcs c' (List.mem_cons_of_mem _ hc')
      simp [spanDigits, hc, hrest, digitValue]

theorem ofDigits_digitsOf (n : Nat) : ofDigits ((digitsOf n).map digitValue) = n := by
  rw [ofDigits, List.foldl_map]
  refine Eq.trans ?_ (Nat.ofDigitChars_ten_toDigits (n := n))
  rw [Nat.ofDigitChars_eq_foldl]
  rfl

theorem areDigits_digitsOf (n : Nat) : AreDigits (digitsOf n) where
  ne_nil := Nat.toDigits_ne_nil
  all _ hc := Nat.isDigit_of_mem_toDigits (by decide) (by decide) hc

/-- The digits of a number begin with a zero only if it is zero. -/
theorem head?_digitsOf {n : Nat} (h : n ≠ 0) : (digitsOf n).head? ≠ some '0' := by
  induction n using Nat.strongRecOn with
  | ind n ih =>
      rw [digitsOf, Nat.toDigits_eq_if (by decide)]
      split
      · simpa using h
      · rename_i hle
        have htens := ih (n / 10) (by omega) (by omega)
        rwa [List.head?_append, Option.or_of_isSome (List.isSome_head?.2 Nat.toDigits_ne_nil)]

theorem length_digitsOf {n : Nat} (h : (digitsOf n).head? = some '0') :
    (digitsOf n).length = 1 := by
  by_cases hn : n = 0
  · rw [hn]
    decide
  · exact absurd h (head?_digitsOf hn)

/-- A digit that counts nothing is a zero. -/
theorem eq_zero_of_digitValue {c : Char} (h : c.isDigit = true)
    (hzero : digitValue c = 0) : c = '0' := by
  have hdigit := Char.isDigit_iff_toNat.1 h
  have hvalue : '0'.toNat = 48 := rfl
  rw [digitValue] at hzero
  exact Char.toNat_inj.1 (by omega)

/-! ## Numerals -/

/-- Does no part of a numeral follow? -/
def Stops (rest : List Char) : Prop :=
  ∀ c ∈ rest.head?, c.isDigit = false ∧ c ≠ '.' ∧ c ≠ 'e' ∧ c ≠ 'E'

theorem Stops.endsDigits {rest : List Char} (h : Stops rest) : EndsDigits rest :=
  fun c hc => (h c hc).1

theorem stops_nil : Stops [] := fun c hc => absurd hc (by simp)

theorem stops_cons {c : Char} {rest : List Char}
    (h : c ∈ [',', ']', '\x7d', ' ', '\n', '\t', '\r']) :
    Stops (c :: rest) := by
  intro c' hc'
  obtain rfl : c = c' := by simpa using hc'
  simp only [List.mem_cons, List.not_mem_nil, or_false] at h
  rcases h with rfl | rfl | rfl | rfl | rfl | rfl | rfl <;> decide

/-- The point of a numeral with the digits behind it. -/
def fractionText : Option (List Char) → List Char
  | none => []
  | some ds => '.' :: ds

/-- The exponent of a numeral: its sign and its digits. -/
def exponentText : Option (List Char × List Char) → List Char
  | none => []
  | some (sign, ds) => 'e' :: sign ++ ds

/-- What the exponent of a numeral says. -/
def exponentValue (e : List Char × List Char) : Int :=
  if e.1 = ['-'] then -(ofDigits (e.2.map digitValue) : Int) else ofDigits (e.2.map digitValue)

/-- Are these the parts of a numeral without its sign? -/
structure AreParts (ws : List Char) (fs? : Option (List Char))
    (e? : Option (List Char × List Char)) : Prop where
  whole : AreDigits ws
  /-- No zero stands before other digits. -/
  first : ws.head? = some '0' → ws.length = 1
  fraction : ∀ fs ∈ fs?, AreDigits fs
  exponent : ∀ e ∈ e?, e.1 ∈ [[], ['-'], ['+']] ∧ AreDigits e.2

theorem exponent?_append {e? : Option (List Char × List Char)}
    (h : ∀ e ∈ e?, e.1 ∈ [[], ['-'], ['+']] ∧ AreDigits e.2) {rest : List Char}
    (hrest : Stops rest) :
    exponent? (exponentText e? ++ rest) = some (e?.map exponentValue, rest) := by
  cases e? with
  | none =>
      cases rest with
      | nil => rfl
      | cons c rest =>
          obtain ⟨-, -, he, hE⟩ := hrest c (by simp)
          simp [exponentText, exponent?, he, hE]
  | some e =>
      obtain ⟨sign, ds⟩ := e
      obtain ⟨hsign, hds⟩ := h (sign, ds) rfl
      obtain ⟨d, ds', rfl⟩ := List.exists_cons_of_ne_nil hds.ne_nil
      have hspan := spanDigits_append hds.all hrest.endsDigits
      have hd : d ≠ '-' ∧ d ≠ '+' := by
        constructor <;> rintro rfl <;> exact absurd (hds.all _ (List.mem_cons_self ..)) (by decide)
      simp only [List.cons_append, List.map_cons] at hspan
      simp only [List.mem_cons, List.not_mem_nil, or_false] at hsign
      rcases hsign with rfl | rfl | rfl <;>
        simp [exponentText, exponent?, exponentValue, hspan, hd.1, hd.2]

end Decimal

namespace Json

open Decimal

/-- What follows the digits before the point is no digit. -/
theorem endsDigits_texts (fs? : Option (List Char)) (e? : Option (List Char × List Char))
    {rest : List Char}
    (hrest : Stops rest) : EndsDigits (fractionText fs? ++ (exponentText e? ++ rest)) := by
  cases fs? with
  | some fs =>
      intro c hc
      obtain rfl : '.' = c := by simpa [fractionText] using hc
      decide
  | none =>
      cases e? with
      | some e =>
          intro c hc
          obtain rfl : 'e' = c := by simpa [fractionText, exponentText] using hc
          decide
      | none => exact hrest.endsDigits

theorem endsDigits_exponentText (e? : Option (List Char × List Char)) {rest : List Char}
    (hrest : Stops rest) :
    EndsDigits (exponentText e? ++ rest) := endsDigits_texts none e? hrest

/-- Digits without needless zeros are accepted. -/
theorem accepts_whole {ws : List Char} (h : AreDigits ws)
    (hfirst : ws.head? = some '0' → ws.length = 1) :
    ((ws.map digitValue).isEmpty ||
      ((ws.map digitValue).head? == some 0 && decide (1 < (ws.map digitValue).length))) =
      false := by
  obtain ⟨w, ws, rfl⟩ := List.exists_cons_of_ne_nil h.ne_nil
  by_cases hw : digitValue w = 0
  · have hzero : w = '0' := eq_zero_of_digitValue (h.all w (List.mem_cons_self ..)) hw
    have hlength := hfirst (by rw [hzero]; rfl)
    simp_all
  · simp [hw]

/-- **A numeral is read in the same way wherever it stands.** -/
theorem number?_append {ws : List Char} {fs? : Option (List Char)}
    {e? : Option (List Char × List Char)}
    (h : AreParts ws fs? e?) (negative : Bool) {rest : List Char} (hrest : Stops rest) :
    number? negative (ws ++ (fractionText fs? ++ (exponentText e? ++ rest))) =
      some (ofNumeral ⟨negative, ws.map digitValue, (fs?.getD []).map digitValue,
        (e?.map exponentValue).getD 0⟩
        (fs?.isNone && e?.isNone), rest) := by
  have hspan := spanDigits_append h.whole.all (endsDigits_texts fs? e? hrest)
  have hwhole := accepts_whole h.whole h.first
  have hexponent := exponent?_append h.exponent hrest
  simp only [number?, hspan, hwhole, Bool.false_eq_true, if_false]
  cases fs? with
  | some fs =>
      have hfraction := spanDigits_append (h.fraction fs rfl).all (endsDigits_exponentText e? hrest)
      have hne : (fs.map digitValue).isEmpty = false := by
        simpa using (h.fraction fs rfl).ne_nil
      simp only [fractionText, List.cons_append, hfraction, hne, Bool.and_false,
        Bool.false_eq_true, if_false,
        hexponent]
      rfl
  | none =>
      have hpoint : ∀ c ∈ (exponentText e? ++ rest).head?, c ≠ '.' := by
        cases e? with
        | none => exact fun c hc => (hrest c hc).2.1
        | some e =>
            intro c hc
            obtain rfl : 'e' = c := by simpa [exponentText] using hc
            decide
      simp only [fractionText, List.nil_append]
      cases hcs : exponentText e? ++ rest with
      | nil =>
          rw [hcs] at hexponent
          simp [hexponent]
      | cons c cs =>
          have hc : c ≠ '.' := hpoint c (by rw [hcs]; rfl)
          rw [hcs] at hexponent
          simp [hc, hexponent]

/-- A whole number is read as its digits say. -/
theorem number?_digitsOf (n : Nat) (negative : Bool) {rest : List Char} (hrest : Stops rest) :
    number? negative (digitsOf n ++ rest) =
      some (ofNumeral ⟨negative, (digitsOf n).map digitValue, [], 0⟩ true, rest) := by
  have hparts : AreParts (digitsOf n) none none :=
    ⟨areDigits_digitsOf n, length_digitsOf, by simp, by simp⟩
  exact number?_append hparts negative hrest

end Json

namespace Decimal

/-! ## Texts of floats -/

theorem twoTo_pos (n : Nat) : 0 < twoTo n := Nat.pow_pos (by decide)

theorem tenTo_pos (n : Nat) : 0 < tenTo n := Nat.pow_pos (by decide)

/-- What is taken of two neighbours is the smaller one, if it is allowed, or the larger one. -/
theorem Tie.taken_cases {tie : Tie} {i j : Bool} {p q : Prop} [Decidable p] [Decidable q]
    {below n : Nat}
    (h : (match i, j with
      | true, true =>
          if p then some below else if q then some (below + 1) else some (tie.pick below)
      | true, false => some below
      | false, true => some (below + 1)
      | false, false => none) = some n) : (i = true ∧ n = below) ∨ n = below + 1 := by
  have hpick : tie.pick below = below ∨ tie.pick below = below + 1 := by
    cases tie with
    | toEven => rw [pick]; split <;> simp
    | away => exact .inr rfl
  cases i <;> cases j <;> dsimp only at h
  · cases h
  · exact .inr (Option.some.inj h).symm
  · exact .inl ⟨rfl, (Option.some.inj h).symm⟩
  · split at h
    · exact .inl ⟨rfl, (Option.some.inj h).symm⟩
    · split at h
      · exact .inr (Option.some.inj h).symm
      · obtain rfl := Option.some.inj h
        exact hpick.imp_left fun heq => ⟨rfl, heq⟩

/-- Zero is in the rounding interval of no other number. -/
theorem Binary.onGrid?_ne_zero {tie : Tie} {b : Binary} (h : b.mantissa ≠ 0) {g : Int} {n : Nat}
    (hn : b.onGrid? tie g = some n) : n ≠ 0 := by
  have hinside : ∀ {scale unit high m : Nat}, 0 < scale →
      (if b.mantissa % 2 = 0 then
          decide ((4 * b.mantissa - if b.narrow then 1 else 2) * scale ≤ m * unit) &&
            decide (m * unit ≤ high)
        else decide ((4 * b.mantissa - if b.narrow then 1 else 2) * scale < m * unit) &&
          decide (m * unit < high))
        = true → m ≠ 0 := by
    rintro scale unit high m hscale htrue rfl
    have hlow : 0 < (4 * b.mantissa - if b.narrow then 1 else 2) * scale :=
      Nat.mul_pos (by split <;> omega) hscale
    split at htrue <;> simp only [Nat.zero_mul, Bool.and_eq_true, decide_eq_true_eq] at htrue <;>
      omega
  have hscale : 0 < twoTo (b.exponent - 2).toNat * tenTo (-g).toNat :=
    Nat.mul_pos (twoTo_pos _) (tenTo_pos _)
  simp only [onGrid?, twoPower, tenPower] at hn
  rcases Tie.taken_cases hn with ⟨hbelow, rfl⟩ | rfl
  · exact hinside hscale hbelow
  · exact Nat.succ_ne_zero _

theorem Scaled.trim_ne_zero {fuel : Nat} {d : Scaled} (h : d.digits ≠ 0) :
    (d.trim fuel).digits ≠ 0 := by
  induction fuel generalizing d with
  | zero => exact h
  | succ fuel ih =>
      rw [trim]
      split
      · rename_i hzero
        refine ih ?_
        show d.digits / 10 ≠ 0
        omega
      · exact h

theorem Binary.search_ne_zero {tie : Tie} {b : Binary} (h : b.mantissa ≠ 0) {fuel : Nat}
    {g : Int} {d : Scaled}
    (hd : b.search tie fuel g = some d) : d.digits ≠ 0 := by
  induction fuel generalizing g with
  | zero => cases hd
  | succ fuel ih =>
      rw [search] at hd
      split at hd
      · rename_i n hn
        obtain rfl := Option.some.inj hd
        exact onGrid?_ne_zero h hn
      · exact ih hd

theorem Binary.shortest_ne_zero {tie : Tie} {b : Binary} (h : b.mantissa ≠ 0) :
    (b.shortest tie).digits ≠ 0 := by
  rw [shortest, if_neg h]
  dsimp only
  split
  · rename_i d hd
    exact Scaled.trim_ne_zero (search_ne_zero h hd)
  · exact h

/-- **A number is written as a numeral.** -/
theorem Layout.exists_parts_write (l : Layout) {d : Scaled} (h : d.digits ≠ 0) :
    ∃ ws fs? e?, AreParts ws fs? e? ∧ l.write d = ws ++ (fractionText fs? ++ exponentText e?) := by
  have hdigits := areDigits_digitsOf d.digits
  have hhead := head?_digitsOf h
  have hzeros : ∀ n, ∀ c ∈ zeros n, c.isDigit = true := by
    intro n c hc
    rw [List.eq_of_mem_replicate hc]
    decide
  rw [write]
  generalize digitsOf d.digits = ds at hdigits hhead
  have hlength : 0 < ds.length := List.length_pos_iff.2 hdigits.ne_nil
  dsimp only
  split
  · split
    · -- all digits stand before the point
      refine ⟨ds ++ zeros d.exponent.toNat, some ['0'], none,
        ⟨hdigits.append (hzeros _), ?_, ?_, by simp⟩, ?_⟩
      · intro hzero
        rw [List.head?_append, Option.or_of_isSome (List.isSome_head?.2 hdigits.ne_nil)] at hzero
        exact absurd hzero hhead
      · rintro fs ⟨⟩
        exact areDigits_zero
      · simp [fractionText, exponentText]
    · split
      · -- the point stands between digits
        rename_i hnegative hfirst
        have hless : (d.exponent + ds.length - 1).toNat + 1 < ds.length := by omega
        generalize (d.exponent + ds.length - 1).toNat = first at hless
        refine ⟨ds.take (first + 1), some (ds.drop (first + 1)), none,
          ⟨⟨?_, ?_⟩, ?_, ?_, by simp⟩, ?_⟩
        · rw [ne_eq, List.take_eq_nil_iff]
          simp [hdigits.ne_nil]
        · exact fun c hc => hdigits.all c (List.mem_of_mem_take hc)
        · intro hzero
          rw [List.head?_take] at hzero
          exact absurd (by simpa using hzero) hhead
        · rintro fs ⟨⟩
          exact ⟨by simpa using hless, fun c hc => hdigits.all c (List.mem_of_mem_drop hc)⟩
        · simp [fractionText, exponentText]
      · -- all digits stand behind the point
        generalize (-(d.exponent + ds.length - 1) - 1).toNat = n
        refine ⟨['0'], some (zeros n ++ ds), none, ⟨areDigits_zero, fun _ => rfl, ?_, by simp⟩, ?_⟩
        · rintro fs ⟨⟩
          exact ⟨by simp [hdigits.ne_nil],
            fun c hc => (List.mem_append.1 hc).elim (hzeros _ c) (hdigits.all c)⟩
        · simp [fractionText, exponentText]
  · -- one digit stands before the point, and there is an exponent
    generalize d.exponent + ds.length - 1 = first
    obtain ⟨c, ds, rfl⟩ := List.exists_cons_of_ne_nil hdigits.ne_nil
    have hexponent :
        ∀ e ∈ some (if first < 0 then ['-'] else if l.plus then ['+'] else [],
          digitsOf first.natAbs),
        e.1 ∈ [[], ['-'], ['+']] ∧ AreDigits e.2 := by
      rintro e ⟨⟩
      refine ⟨?_, areDigits_digitsOf _⟩
      dsimp only
      split
      · simp
      · split <;> simp
    have hc : AreDigits [c] := ⟨by simp, fun c' hc' => hdigits.all c' (by simp_all)⟩
    cases ds with
    | nil => exact ⟨[c], none, _,
               ⟨hc, fun _ => rfl, by simp, hexponent⟩, by simp [fractionText, exponentText]⟩
    | cons c' ds =>
        refine ⟨[c], some (c' :: ds), _,
          ⟨hc, fun _ => rfl, ?_, hexponent⟩, by simp [fractionText, exponentText]⟩
        rintro fs ⟨⟩
        exact ⟨by simp, fun c'' hc'' => hdigits.all c'' (List.mem_cons_of_mem _ hc'')⟩

end Decimal

namespace Json

open Decimal

/-- The sign of a number. -/
def signText (negative : Bool) : List Char := if negative then ['-'] else []

/-- **A finite float is written as a numeral**, and any other one as `null`. -/
theorem floatText_cases (x : Float) :
    floatText x = ['n', 'u', 'l', 'l'] ∨
    ∃ negative ws fs? e?, AreParts ws fs? e? ∧
      floatText x = signText negative ++ (ws ++ (fractionText fs? ++ exponentText e?)) := by
  rw [floatText, Layout.finite?]
  cases hx : Binary.ofFloat? x with
  | none => exact .inl rfl
  | some b =>
      have hbody : ∃ ws fs? e?, AreParts ws fs? e? ∧
          (if b.mantissa = 0 then ['0', '.', '0'] else
            Layout.json.write (b.shortest Layout.json.tie))
            = ws ++ (fractionText fs? ++ exponentText e?) := by
        by_cases hzero : b.mantissa = 0
        · refine ⟨['0'], some ['0'], none, ⟨areDigits_zero, fun _ => rfl, ?_, by simp⟩, ?_⟩
          · rintro fs ⟨⟩
            exact areDigits_zero
          · simp [hzero, fractionText, exponentText]
        · rw [if_neg hzero]
          exact Layout.json.exists_parts_write (Binary.shortest_ne_zero hzero)
      obtain ⟨ws, fs?, e?, hparts, heq⟩ := hbody
      refine .inr ⟨isNegative x, ws, fs?, e?, hparts, ?_⟩
      dsimp only
      rw [heq, String.toList_ofList, signText]
      cases isNegative x <;> rfl

end Json

end CallFlow
