import CallFlow.Proofs.Numerals

/-!
# JSON text that is read again

Both printers write a value as tokens with blanks between them (`Json.Spells`).  Such a text is
read as one piece, `Piece.ofPrinted`, whatever the blanks are (`Json.Spells.readAs`): everything
in it is the same but for floats, which are read as their digits say, and whole numbers that do
not fit 64 bits.
-/

namespace CallFlow.Json

open CallFlow.Decimal

/-! ## Blanks -/

/-- Is there white space and nothing else? -/
def AreBlank (cs : List Char) : Prop := ∀ c ∈ cs, c = ' ' ∨ c = '\n' ∨ c = '\t' ∨ c = '\r'

theorem areBlank_nil : AreBlank [] := fun _ hc => absurd hc (by simp)

theorem areBlank_space : AreBlank [' '] := by
  intro c hc
  exact .inl (List.mem_singleton.1 hc)

theorem areBlank_lineBreak (level : Nat) : AreBlank (lineBreak level) := by
  intro c hc
  rcases List.mem_cons.1 hc with rfl | hc
  · exact .inr (.inl rfl)
  · exact .inl (List.eq_of_mem_replicate hc)

theorem skipBlank_append {bs : List Char} (h : AreBlank bs) (rest : List Char) :
    skipBlank (bs ++ rest) = skipBlank rest := by
  induction bs with
  | nil => rfl
  | cons b bs ih =>
      have hb := h b (List.mem_cons_self ..)
      have hrest := ih fun c hc => h c (List.mem_cons_of_mem _ hc)
      rw [List.cons_append, skipBlank, hrest]
      rcases hb with rfl | rfl | rfl | rfl <;> rfl

theorem stops_append {bs : List Char} (h : AreBlank bs) {c : Char} (hc : c ∈ [',', ']', '\x7d'])
    (rest : List Char) :
    Stops (bs ++ c :: rest) := by
  cases bs with
  | nil => exact stops_cons (List.mem_append_left [' ', '\n', '\t', '\r'] hc)
  | cons b bs =>
      refine stops_cons ?_
      rcases h b (List.mem_cons_self ..) with rfl | rfl | rfl | rfl <;> decide

/-! ## Strings -/

/-- Does the character stand in a string as it is? -/
def isPlain (c : Char) : Bool := escapedChar c == [c]

theorem hexDigits_of_control : ∀ n < 0x20, ∃ a b,
    (if n < 16 then ['0'] else []) ++ Text.hexDigits n = [a, b] ∧
      Text.hexDigit? a = some (n / 16) ∧ Text.hexDigit? b = some (n % 16) := by
  intro n hn
  have hdigits : ∀ d < 16, Text.hexDigit? (Nat.digitChar d) = some d := by decide
  refine ⟨(n / 16).digitChar, (n % 16).digitChar, ?_, hdigits _ (by omega), hdigits _ (by omega)⟩
  rw [Text.hexDigits, Nat.toDigits_eq_if (by decide)]
  split
  · rename_i hless
    rw [Nat.div_eq_of_lt hless, Nat.mod_eq_of_lt hless]
    rfl
  · rename_i hle
    rw [Nat.toDigits_of_lt_base (by omega)]
    rfl

/-- A control character is read again from its number. -/
theorem escaped?_control {c : Char} (h : c.toNat < 0x20) (rest : List Char) :
    escaped? ('u' :: '0' :: '0' ::
      ((if c.toNat < 16 then ['0'] else []) ++ Text.hexDigits c.toNat ++ rest)) =
      some (some c, rest) := by
  obtain ⟨a, b, hab, ha, hb⟩ := hexDigits_of_control c.toNat h
  have hunit : hexUnit? ('0' :: '0' :: a :: b :: rest) = some (c.toNat, rest) := by
    have hzero : Text.hexDigit? '0' = some 0 := rfl
    have hvalue : ((0 * 16 + 0) * 16 + c.toNat / 16) * 16 + c.toNat % 16 = c.toNat := by omega
    simp only [hexUnit?, hzero, ha, hb, Option.bind_eq_bind, Option.bind_some, hvalue]
  rw [hab]
  show escapedPoint? ('0' :: '0' :: a :: b :: rest) = _
  rw [escapedPoint?, hunit]
  have hlow : ¬ 0xDC00 ≤ c.toNat := by omega
  have hhigh : ¬ 0xD800 ≤ c.toNat := by omega
  simp [hlow, hhigh, Char.ofNat_toNat]

/-- A character that is escaped is read again as what it is. -/
theorem escapedChar_cases (c : Char) :
    (isPlain c = true ∧ c ≠ '"' ∧ c ≠ '\\' ∧ ¬ c.toNat < 0x20) ∨
    (isPlain c = false ∧
      ∃ e, escapedChar c = '\\' :: e ∧ ∀ rest, escaped? (e ++ rest) = some (some c, rest)) := by
  have hescaped :
      ∀ {e}, escapedChar c = '\\' :: e → (∀ rest, escaped? (e ++ rest) = some (some c, rest)) →
      isPlain c = false ∧
      ∃ e, escapedChar c = '\\' :: e ∧ ∀ rest, escaped? (e ++ rest) = some (some c, rest) := by
    intro e he hread
    refine ⟨?_, e, he, hread⟩
    rw [isPlain, he, beq_eq_false_iff_ne]
    intro heq
    obtain ⟨-, rfl⟩ := List.cons.inj heq
    exact absurd (hread []) (by simp [escaped?])
  by_cases hspecial : c ∈ ['"', '\\', '\n', '\r', '\t', '\x08', '\x0c']
  · simp only [List.mem_cons, List.not_mem_nil, or_false] at hspecial
    rcases hspecial with rfl | rfl | rfl | rfl | rfl | rfl | rfl <;>
      exact .inr (hescaped rfl fun _ => rfl)
  · simp only [List.mem_cons, List.not_mem_nil, or_false, not_or] at hspecial
    obtain ⟨hquote, hbackslash, hn, hr, ht, hb, hf⟩ := hspecial
    have h8 : c.toNat ≠ 8 := fun heq => hb (Char.toNat_inj.1 heq)
    have h12 : c.toNat ≠ 12 := fun heq => hf (Char.toNat_inj.1 heq)
    by_cases hcontrol : c.toNat < 0x20
    · have hchars : escapedChar c = '\\' ::
          'u' :: '0' :: '0' ::
            ((if c.toNat < 16 then ['0'] else []) ++ Text.hexDigits c.toNat) := by
        simp [escapedChar, hquote, hbackslash, hn, hr, ht, h8, h12, hcontrol]
      exact .inr (hescaped hchars (escaped?_control hcontrol))
    · refine .inl ⟨?_, hquote, hbackslash, hcontrol⟩
      simp [isPlain, escapedChar, hquote, hbackslash, hn, hr, ht, h8, h12, hcontrol]

/-- The rest of a string is read as what was escaped. -/
theorem stringTail?_append {s : List Char} {fuel : Nat} (hfuel : s.length < fuel)
    (front : List Char)
    (plain : Bool) (rest : List Char) :
    stringTail? fuel (front.map some).reverse plain (s.flatMap escapedChar ++ '"' :: rest) =
      some (⟨some (String.ofList (front ++ s)), plain && s.all isPlain⟩, rest) := by
  induction s generalizing fuel front plain with
  | nil =>
      obtain ⟨fuel, rfl⟩ := Nat.exists_eq_succ_of_ne_zero (Nat.ne_zero_of_lt hfuel)
      have hfront : front.mapM some = some front := by
        simpa using List.mapM_pure (m := Option) (l := front) (f := id)
      simp [stringTail?, hfront]
  | cons c s ih =>
      obtain ⟨fuel, rfl⟩ := Nat.exists_eq_succ_of_ne_zero (Nat.ne_zero_of_lt hfuel)
      have hlength : s.length < fuel := Nat.lt_of_succ_lt_succ hfuel
      have hnext := fun plain => ih hlength (front ++ [c]) plain
      simp only [List.map_append, List.map_cons, List.map_nil, List.reverse_append,
        List.reverse_singleton,
        List.singleton_append, List.append_assoc] at hnext
      rw [List.flatMap_cons, List.append_assoc, List.all_cons]
      rcases escapedChar_cases c with ⟨hplain, hquote, hbackslash, hcontrol⟩ |
        ⟨hplain, e, he, hread⟩
      · have hchars : escapedChar c = [c] := eq_of_beq hplain
        simp [hchars, stringTail?, hquote, hbackslash, hcontrol, hnext, hplain]
      · simp [he, stringTail?, hread, hnext, hplain]

theorem length_le_flatMap_escapedChar (s : List Char) :
    s.length ≤ (s.flatMap escapedChar).length := by
  induction s with
  | nil => exact Nat.zero_le _
  | cons c s ih =>
      have hchar : 0 < (escapedChar c).length := by
        rcases escapedChar_cases c with ⟨hplain, -⟩ | ⟨-, e, he, -⟩
        · rw [eq_of_beq hplain]
          exact Nat.one_pos
        · rw [he]
          exact Nat.succ_pos _
      rw [List.flatMap_cons, List.length_append, List.length_cons]
      omega

/-- A string is read as what it is. -/
theorem stringTail?_stringText (s : String) {fuel : Nat} (hfuel : (stringText s).length ≤ fuel + 1)
    (rest : List Char) :
    stringTail? fuel [] true (s.toList.flatMap escapedChar ++ '"' :: rest) =
      some (⟨some s, s.toList.all isPlain⟩, rest) := by
  have hlength := length_le_flatMap_escapedChar s.toList
  rw [stringText, List.cons_append, List.length_cons, List.length_append,
    List.length_singleton] at hfuel
  have hread := stringTail?_append (show s.toList.length < fuel by omega) [] true rest
  simpa using hread

/-! ## The piece that a printed value is read as -/

/-- The piece that the text of a whole number is read as. -/
def readInt (n : Int) : Piece :=
  ofNumeral ⟨decide (n < 0), (digitsOf n.natAbs).map digitValue, [], 0⟩ true

/-- The piece that the text of a float is read as. -/
def readFloat (x : Float) : Piece := (Piece.parse? (String.ofList (floatText x))).getD .unreadable

mutual

/-- The piece that the text of a value is read as. -/
def Piece.ofPrinted : Json → Piece
  | .null => .null
  | .bool b => .bool b
  | .int n => readInt n
  | .float x => readFloat x
  | .str s => .str s
  | .arr items => .arr (itemsOfPrinted items)
  | .obj members => .obj (membersOfPrinted members)

/-- The pieces that the texts of the items of an array are read as. -/
def Piece.itemsOfPrinted : List Json → List Piece
  | [] => []
  | j :: rest => ofPrinted j :: itemsOfPrinted rest

/-- The pieces that the texts of the members of an object are read as. -/
def Piece.membersOfPrinted : List (String × Json) → List (Key × Piece)
  | [] => []
  | (k, j) :: rest => (⟨k, k.toList.all isPlain⟩, ofPrinted j) :: membersOfPrinted rest

end

/-- A whole number that fits 64 bits is read as what it is. -/
theorem readInt_eq {n : Int} (hmin : Int64.minValue.toInt ≤ n) (hmax : n < UInt64.size) :
    readInt n = .int n := by
  have hsize : (UInt64.size : Int) = 18446744073709551616 := rfl
  rw [readInt, ofNumeral]
  simp only [ofDigits_digitsOf, Bool.true_and, Bool.and_eq_true, decide_eq_true_eq,
    Bool.not_eq_true']
  rcases Int.lt_or_le n 0 with hneg | hnonneg
  · have habs : -(n.natAbs : Int) = n := by omega
    rw [if_neg (fun h => absurd hneg (of_decide_eq_false h.2)),
      if_pos ⟨⟨by omega, by omega⟩, hneg⟩, habs]
  · have habs : (n.natAbs : Int) = n := by omega
    have hless : n.natAbs < UInt64.size := by
      have hsize : UInt64.size = 18446744073709551616 := rfl
      omega
    rw [if_pos ⟨hless, decide_eq_false (Int.not_lt.2 hnonneg)⟩, habs]

/-! ## How deep values nest -/

mutual

/-- How deep the containers of a value nest. -/
def depth : Json → Nat
  | .arr items => itemsDepth items + 1
  | .obj members => membersDepth members + 1
  | .null => 0
  | .bool _ => 0
  | .int _ => 0
  | .float _ => 0
  | .str _ => 0

/-- How deep the containers in the items of an array nest. -/
def itemsDepth : List Json → Nat
  | [] => 0
  | j :: rest => max (depth j) (itemsDepth rest)

/-- How deep the containers in the members of an object nest. -/
def membersDepth : List (String × Json) → Nat
  | [] => 0
  | (_, j) :: rest => max (depth j) (membersDepth rest)

end

/-! ## Tokens with blanks between them -/

mutual

/-- The characters spell the value, with blanks before items, members and closing brackets, and
behind colons. -/
inductive Spells : Json → List Char → Prop
  | null : Spells .null ['n', 'u', 'l', 'l']
  | true : Spells (.bool true) ['t', 'r', 'u', 'e']
  | false : Spells (.bool false) ['f', 'a', 'l', 's', 'e']
  | int (n : Int) : Spells (.int n) (toString n).toList
  | float (x : Float) : Spells (.float x) (floatText x)
  | str (s : String) : Spells (.str s) (stringText s)
  | nil : Spells (.arr []) ['[', ']']
  | arr {items cs bs} :
      SpellItems items cs → AreBlank bs → Spells (.arr items) ('[' :: (cs ++ (bs ++ [']'])))
  | empty : Spells (.obj []) ['\x7b', '\x7d']
  | obj {members cs bs} : SpellMembers members cs → AreBlank bs →
      Spells (.obj members) ('\x7b' :: (cs ++ (bs ++ ['\x7d'])))

/-- The characters spell the items of an array that has some. -/
inductive SpellItems : List Json → List Char → Prop
  | last {j bs cs} : AreBlank bs → Spells j cs → SpellItems [j] (bs ++ cs)
  | cons {j items bs cs cs'} : AreBlank bs → Spells j cs → SpellItems items cs' →
      SpellItems (j :: items) (bs ++ (cs ++ ',' :: cs'))

/-- The characters spell the members of an object that has some. -/
inductive SpellMembers : List (String × Json) → List Char → Prop
  | last {k j bs gap cs} : AreBlank bs → AreBlank gap → Spells j cs →
      SpellMembers [(k, j)] (bs ++ (stringText k ++ ':' :: (gap ++ cs)))
  | cons {k j members bs gap cs cs'} :
      AreBlank bs → AreBlank gap → Spells j cs → SpellMembers members cs' →
      SpellMembers ((k, j) :: members) (bs ++ (stringText k ++ ':' :: (gap ++ (cs ++ ',' :: cs'))))

end

mutual

/-- Text without white space spells the value. -/
theorem spells_compact : (j : Json) → Spells j (compactChars j)
  | .null => .null
  | .bool true => .true
  | .bool false => .false
  | .int n => .int n
  | .float x => .float x
  | .str s => .str s
  | .arr [] => .nil
  | .arr (j :: rest) => by
      simpa [compactChars] using Spells.arr (spells_compactItems (j :: rest) (by simp)) areBlank_nil
  | .obj [] => .empty
  | .obj (m :: rest) => by
      simpa [compactChars] using
        Spells.obj (spells_compactMembers (m :: rest) (by simp)) areBlank_nil

theorem spells_compactItems :
    (items : List Json) → items ≠ [] → SpellItems items (compactItems items)
  | [], h => absurd rfl h
  | [j], _ => .last areBlank_nil (spells_compact j)
  | j :: j' :: rest, _ =>
      .cons areBlank_nil (spells_compact j) (spells_compactItems (j' :: rest) (by simp))

theorem spells_compactMembers :
    (members : List (String × Json)) → members ≠ [] → SpellMembers members (compactMembers members)
  | [], h => absurd rfl h
  | [(_, j)], _ => .last areBlank_nil areBlank_nil (spells_compact j)
  | (k, j) :: m :: rest, _ => by
      simpa [compactMembers] using SpellMembers.cons (k := k) areBlank_nil areBlank_nil
        (spells_compact j)
        (spells_compactMembers (m :: rest) (by simp))

end

mutual

/-- Text on several lines spells the value. -/
theorem spells_pretty : (level : Nat) → (j : Json) → Spells j (prettyChars level j)
  | _, .null => .null
  | _, .bool true => .true
  | _, .bool false => .false
  | _, .int n => .int n
  | _, .float x => .float x
  | _, .str s => .str s
  | _, .arr [] => .nil
  | level, .arr (j :: rest) => by
      simpa [prettyChars] using Spells.arr (spells_prettyItems level (j :: rest) (by simp))
        (areBlank_lineBreak level)
  | _, .obj [] => .empty
  | level, .obj (m :: rest) => by
      simpa [prettyChars] using Spells.obj (spells_prettyMembers level (m :: rest) (by simp))
        (areBlank_lineBreak level)

theorem spells_prettyItems :
    (level : Nat) → (items : List Json) → items ≠ [] → SpellItems items (prettyItems level items)
  | _, [], h => absurd rfl h
  | level, [j], _ => .last (areBlank_lineBreak _) (spells_pretty (level + 1) j)
  | level, j :: j' :: rest, _ => by
      simpa [prettyItems] using SpellItems.cons (areBlank_lineBreak _) (spells_pretty (level + 1) j)
        (spells_prettyItems level (j' :: rest) (by simp))

theorem spells_prettyMembers : (level : Nat) → (members : List (String × Json)) → members ≠ [] →
    SpellMembers members (prettyMembers level members)
  | _, [], h => absurd rfl h
  | level, [(k, j)], _ => by
      simpa [prettyMembers] using SpellMembers.last (k := k) (areBlank_lineBreak _) areBlank_space
        (spells_pretty (level + 1) j)
  | level, (k, j) :: m :: rest, _ => by
      simpa [prettyMembers] using SpellMembers.cons (k := k) (areBlank_lineBreak _) areBlank_space
        (spells_pretty (level + 1) j) (spells_prettyMembers level (m :: rest) (by simp))

end

/-! ## Reading tokens -/

theorem toList_toString_int (n : Int) :
    (toString n).toList = signText (decide (n < 0)) ++ digitsOf n.natAbs := by
  cases n with
  | ofNat n => 
      have hneg : ¬ (Int.ofNat n < 0) := by simp
      simp [signText, digitsOf, toString, Int.repr]
  | negSucc n =>
      simp [signText, digitsOf, toString, Int.repr]

/-- The first character of a value is no blank and no closing bracket. -/
def Begins (cs : List Char) : Prop :=
  ∃ c tail, cs = c :: tail ∧ c ∉ [' ', '\n', '\t', '\r', ']', '\x7d']

theorem begins_number (negative : Bool) {ws : List Char} (h : AreDigits ws) (cs : List Char) :
    Begins (signText negative ++ (ws ++ cs)) := by
  cases negative with
  | true => exact ⟨'-', ws ++ cs, rfl, by decide⟩
  | false =>
      obtain ⟨w, ws, rfl⟩ := List.exists_cons_of_ne_nil h.ne_nil
      refine ⟨w, ws ++ cs, rfl, fun hmem => ?_⟩
      have hdigit := h.all w (List.mem_cons_self ..)
      simp only [List.mem_cons, List.not_mem_nil, or_false] at hmem
      rcases hmem with rfl | rfl | rfl | rfl | rfl | rfl <;> exact absurd hdigit (by decide)

theorem Spells.begins {j : Json} {cs : List Char} (h : Spells j cs) : Begins cs := by
  cases h with
  | int n =>
      rw [toList_toString_int]
      simpa using begins_number (decide (n < 0)) (areDigits_digitsOf n.natAbs) []
  | float x =>
      rcases floatText_cases x with hx | ⟨negative, ws, fs?, e?, hparts, hx⟩ <;> rw [hx]
      · exact ⟨'n', _, rfl, by decide⟩
      · exact begins_number _ hparts.whole _
  | _ => exact ⟨_, _, rfl, by decide⟩

theorem value?_append {bs : List Char} (h : AreBlank bs) (fuel depth : Nat) (cs : List Char) :
    value? fuel depth (bs ++ cs) = value? fuel depth cs := by
  cases fuel with
  | zero => rfl
  | succ fuel => rw [value?, value?, skipBlank_append h]

theorem skipBlank_of_begins {cs : List Char} (h : Begins cs) (rest : List Char) :
    skipBlank (cs ++ rest) = cs ++ rest := by
  obtain ⟨c, tail, rfl, hc⟩ := h
  simp only [List.mem_cons, List.not_mem_nil, or_false, not_or] at hc
  simp [skipBlank, hc]

/-- A number is read as its numeral is. -/
theorem value?_number {negative : Bool} {ws : List Char} (h : AreDigits ws) (cs : List Char)
    (fuel depth : Nat) :
    value? (fuel + 1) depth (signText negative ++ (ws ++ cs)) = number? negative (ws ++ cs) := by
  cases negative with
  | true => simp [value?, signText, skipBlank]
  | false =>
      obtain ⟨w, ws, rfl⟩ := List.exists_cons_of_ne_nil h.ne_nil
      have hne : ∀ c, c.isDigit = false → w ≠ c := by
        rintro c hc rfl
        exact absurd (h.all w (List.mem_cons_self ..)) (by simp [hc])
      have hspace := hne ' ' rfl
      have hline := hne '\n' rfl
      have htab := hne '\t' rfl
      have hreturn := hne '\r' rfl
      have hquote := hne '"' rfl
      have hbracket := hne '[' rfl
      have hbrace := hne '\x7b' rfl
      have hn := hne 'n' rfl
      have ht := hne 't' rfl
      have hf := hne 'f' rfl
      have hminus := hne '-' rfl
      simp [value?, signText, skipBlank, hspace, hline, htab, hreturn, hquote, hbracket, hbrace, hn,
        ht, hf, hminus]

/-- A float is read, wherever it stands, as it is read alone. -/
theorem value?_floatText (x : Float) (fuel depth : Nat) {rest : List Char} (hrest : Stops rest) :
    value? (fuel + 1) depth (floatText x ++ rest) = some (readFloat x, rest) := by
  have hread : ∃ w, ∀ fuel depth rest, Stops rest →
      value? (fuel + 1) depth (floatText x ++ rest) = some (w, rest) := by
    rcases floatText_cases x with hx | ⟨negative, ws, fs?, e?, hparts, hx⟩
    · exact ⟨.null, fun fuel depth rest _ => by simp [hx, value?, skipBlank, afterWord?]⟩
    · refine ⟨ofNumeral ⟨negative, ws.map digitValue, (fs?.getD []).map digitValue,
        (e?.map exponentValue).getD 0⟩
        (fs?.isNone && e?.isNone), fun fuel depth rest hrest => ?_⟩
      simp only [hx, List.append_assoc]
      rw [value?_number hparts.whole, number?_append hparts negative hrest]
  obtain ⟨w, hw⟩ := hread
  have hparse : Piece.parse? (String.ofList (floatText x)) = some w := by
    have halone := hw (2 * (floatText x).length + 1) nestingLimit [] stops_nil
    rw [List.append_nil] at halone
    simp [Piece.parse?, Piece.parseWithin?, halone, skipBlank]
  rw [hw fuel depth rest hrest, readFloat, hparse]
  rfl

/-- A whole number is read as its digits say. -/
theorem value?_int (n : Int) (fuel depth : Nat) {rest : List Char} (hrest : Stops rest) :
    value? (fuel + 1) depth ((toString n).toList ++ rest) = some (readInt n, rest) := by
  rw [toList_toString_int, List.append_assoc, value?_number (areDigits_digitsOf _),
    number?_digitsOf _ _ hrest]
  rfl

/-- The characters of a value are read as the piece, where containers may nest `depth` levels. -/
def ReadAs (cs : List Char) (w : Piece) (depth : Nat) : Prop :=
  ∀ fuel depth' rest, 2 * cs.length < fuel → depth ≤ depth' → Stops rest →
    value? fuel depth' (cs ++ rest) = some (w, rest)

/-- The characters of items are read as the pieces. -/
def ItemsReadAs (cs : List Char) (ws : List Piece) (depth : Nat) : Prop :=
  ∀ fuel depth' bs rest, 2 * cs.length + 1 < fuel → depth ≤ depth' → AreBlank bs →
    items? fuel depth' (cs ++ (bs ++ ']' :: rest)) = some (ws, rest)

/-- The characters of members are read as the keys and pieces. -/
def MembersReadAs (cs : List Char) (ms : List (Key × Piece)) (depth : Nat) : Prop :=
  ∀ fuel depth' bs rest, 2 * cs.length + 1 < fuel → depth ≤ depth' → AreBlank bs →
    members? fuel depth' (cs ++ (bs ++ '\x7d' :: rest)) =
      some (ms.map fun m => (some m.1, m.2), rest)

theorem readAs_of_succ {cs : List Char} {w : Piece} {depth : Nat}
    (h : ∀ fuel depth' rest, 2 * cs.length ≤ fuel → depth ≤ depth' → Stops rest →
      value? (fuel + 1) depth' (cs ++ rest) = some (w, rest)) : ReadAs cs w depth := by
  intro fuel depth' rest hfuel hdepth hrest
  obtain ⟨fuel, rfl⟩ := Nat.exists_eq_succ_of_ne_zero (Nat.ne_zero_of_lt hfuel)
  exact h fuel depth' rest (Nat.le_of_lt_succ hfuel) hdepth hrest

theorem readAs_stringText (s : String) : ReadAs (stringText s) (.str s) 0 := by
  refine readAs_of_succ fun fuel depth rest hfuel _ _ => ?_
  have hread := stringTail?_stringText s (show (stringText s).length ≤ fuel + 1 by omega) rest
  simp [value?, stringText, skipBlank, hread, StringToken.piece]

/-- Behind blanks the text begins as a value does. -/
def BeginsLater (cs : List Char) : Prop := ∃ bs cs', cs = bs ++ cs' ∧ AreBlank bs ∧ Begins cs'

/-- What is in front of more text that begins later is no closing bracket. -/
theorem BeginsLater.skipBlank_append {cs : List Char} (h : BeginsLater cs) (rest : List Char) :
    ∃ c tail, skipBlank (cs ++ rest) = c :: tail ∧ c ≠ ']' ∧ c ≠ '\x7d' := by
  obtain ⟨bs, cs', rfl, hbs, hbegins⟩ := h
  rw [List.append_assoc, Json.skipBlank_append hbs, skipBlank_of_begins hbegins]
  obtain ⟨c, tail, rfl, hc⟩ := hbegins
  simp only [List.mem_cons, List.not_mem_nil, or_false, not_or] at hc
  exact ⟨c, tail ++ rest, rfl, hc.2.2.2.2⟩

theorem begins_append {cs : List Char} (h : Begins cs) (cs' : List Char) : Begins (cs ++ cs') := by
  obtain ⟨c, tail, rfl, hc⟩ := h
  exact ⟨c, tail ++ cs', rfl, hc⟩

theorem SpellItems.beginsLater {items : List Json} {cs : List Char} (h : SpellItems items cs) :
    BeginsLater cs := by
  cases h with
  | last hbs hj => exact ⟨_, _, rfl, hbs, hj.begins⟩
  | cons hbs hj hitems => exact ⟨_, _, rfl, hbs, begins_append hj.begins _⟩

theorem SpellMembers.beginsLater {members : List (String × Json)} {cs : List Char}
    (h : SpellMembers members cs) :
    BeginsLater cs := by
  have hkey : ∀ k : String, Begins (stringText k) := fun k => ⟨'"', _, rfl, by decide⟩
  cases h with
  | last hbs hgap hj => exact ⟨_, _, rfl, hbs, begins_append (hkey _) _⟩
  | cons hbs hgap hj hmembers => exact ⟨_, _, rfl, hbs, begins_append (hkey _) _⟩

theorem ItemsReadAs.arr {cs bs : List Char} {ws : List Piece} {depth : Nat}
    (h : ItemsReadAs cs ws depth)
    (hcs : BeginsLater cs) (hbs : AreBlank bs) :
    ReadAs ('[' :: (cs ++ (bs ++ [']']))) (.arr ws) (depth + 1) := by
  refine readAs_of_succ fun fuel depth' rest hfuel hdepth _ => ?_
  simp only [List.length_cons, List.length_append] at hfuel
  have hread := h fuel (depth' - 1) bs rest (by omega) (by omega) hbs
  obtain ⟨c, tail, hskip, hc, -⟩ := hcs.skipBlank_append (bs ++ ']' :: rest)
  have hdeep : depth' ≠ 0 := by omega
  simp [value?, skipBlank, hskip, hc, hread, nested, hdeep]

theorem ofMembers_map (ms : List (Key × Piece)) :
    ofMembers (ms.map fun m => (some m.1, m.2)) = .obj ms := by
  have hkeys :
      (ms.map fun m => ((some m.1 : Option Key), m.2)).mapM
        (fun m => m.1.map fun key => (key, m.2)) =
      some ms := by
    induction ms with
    | nil => rfl
    | cons m ms ih =>
        rw [List.map_cons, List.mapM_cons, ih]
        rfl
  rw [ofMembers]
  split
  · rename_i members hmembers
    exact congrArg Piece.obj (Option.some.inj (hmembers.symm.trans hkeys))
  · rename_i hnone
    cases hnone.symm.trans hkeys

theorem MembersReadAs.obj {cs bs : List Char} {ms : List (Key × Piece)} {depth : Nat}
    (h : MembersReadAs cs ms depth) (hcs : BeginsLater cs) (hbs : AreBlank bs) :
    ReadAs ('\x7b' :: (cs ++ (bs ++ ['\x7d']))) (.obj ms) (depth + 1) := by
  refine readAs_of_succ fun fuel depth' rest hfuel hdepth _ => ?_
  simp only [List.length_cons, List.length_append] at hfuel
  have hread := h fuel (depth' - 1) bs rest (by omega) (by omega) hbs
  obtain ⟨c, tail, hskip, -, hc⟩ := hcs.skipBlank_append (bs ++ '\x7d' :: rest)
  have hdeep : depth' ≠ 0 := by omega
  simp [value?, skipBlank, hskip, hc, hread, nested, hdeep, ofMembers_map]

theorem ReadAs.lastItem {cs bs : List Char} {w : Piece} {depth : Nat} (h : ReadAs cs w depth)
    (hbs : AreBlank bs) :
    ItemsReadAs (bs ++ cs) [w] depth := by
  intro fuel depth' bs' rest hfuel hdepth hbs'
  obtain ⟨fuel, rfl⟩ := Nat.exists_eq_succ_of_ne_zero (Nat.ne_zero_of_lt hfuel)
  rw [List.length_append] at hfuel
  have hread :=
    h fuel depth' (bs' ++ ']' :: rest) (by omega) hdepth (stops_append hbs' (by decide) rest)
  rw [items?, List.append_assoc, value?_append hbs, hread]
  simp [skipBlank_append hbs', skipBlank]

theorem ReadAs.consItem {cs bs cs' : List Char} {w : Piece} {ws : List Piece} {depth depths : Nat}
    (h : ReadAs cs w depth) (hbs : AreBlank bs) (hrest : ItemsReadAs cs' ws depths) :
    ItemsReadAs (bs ++ (cs ++ ',' :: cs')) (w :: ws) (max depth depths) := by
  intro fuel depth' bs' rest hfuel hdepth hbs'
  obtain ⟨fuel, rfl⟩ := Nat.exists_eq_succ_of_ne_zero (Nat.ne_zero_of_lt hfuel)
  simp only [List.length_cons, List.length_append] at hfuel
  have hread := h fuel depth' (',' :: (cs' ++ (bs' ++ ']' :: rest))) (by omega) (by omega)
    (stops_cons (by decide))
  have hmore := hrest fuel depth' bs' rest (by omega) (by omega) hbs'
  simp only [List.append_assoc, List.cons_append]
  rw [items?, value?_append hbs, hread]
  simp [skipBlank, hmore]

/-- A key is read with what follows it. -/
theorem members?_key (k : String) {bs : List Char} (hbs : AreBlank bs) {fuel : Nat}
    (hfuel : (stringText k).length ≤ fuel + 1) (depth : Nat) (cs : List Char) :
    members? (fuel + 1) depth (bs ++ (stringText k ++ ':' :: cs)) =
      match value? fuel depth cs with
      | none => none
      | some (w, rest) =>
          match skipBlank rest with
          | ',' :: more =>
              (members? fuel depth more).map fun (ms, after) =>
                ((some ⟨k, k.toList.all isPlain⟩, w) :: ms, after)
          | '\x7d' :: after => some ([(some ⟨k, k.toList.all isPlain⟩, w)], after)
          | _ => none := by
  have hkey := stringTail?_stringText k hfuel (':' :: cs)
  rw [members?, skipBlank_append hbs]
  simp only [stringText, List.cons_append, List.append_assoc, List.nil_append]
  have hquote : ∀ cs, skipBlank ('"' :: cs) = '"' :: cs := fun _ => rfl
  have hcolon : skipBlank (':' :: cs) = ':' :: cs := rfl
  simp only [hquote, hcolon, hkey, StringToken.key?]
  rfl

theorem ReadAs.lastMember {cs bs gap : List Char} {w : Piece} {depth : Nat}
    (h : ReadAs cs w depth) (k : String)
    (hbs : AreBlank bs) (hgap : AreBlank gap) :
    MembersReadAs (bs ++ (stringText k ++ ':' :: (gap ++ cs)))
      [(⟨k, k.toList.all isPlain⟩, w)] depth := by
  intro fuel depth' bs' rest hfuel hdepth hbs'
  obtain ⟨fuel, rfl⟩ := Nat.exists_eq_succ_of_ne_zero (Nat.ne_zero_of_lt hfuel)
  simp only [List.length_cons, List.length_append] at hfuel
  have hread :=
    h fuel depth' (bs' ++ '\x7d' :: rest) (by omega) hdepth (stops_append hbs' (by decide) rest)
  simp only [List.append_assoc, List.cons_append]
  rw [members?_key k hbs (by omega), value?_append hgap, hread]
  simp [skipBlank_append hbs', skipBlank]

theorem ReadAs.consMember {cs bs gap cs' : List Char} {w : Piece} {ms : List (Key × Piece)}
    {depth depths : Nat}
    (h : ReadAs cs w depth) (k : String) (hbs : AreBlank bs) (hgap : AreBlank gap)
    (hrest : MembersReadAs cs' ms depths) :
    MembersReadAs (bs ++ (stringText k ++ ':' :: (gap ++ (cs ++ ',' :: cs'))))
      ((⟨k, k.toList.all isPlain⟩, w) :: ms) (max depth depths) := by
  intro fuel depth' bs' rest hfuel hdepth hbs'
  obtain ⟨fuel, rfl⟩ := Nat.exists_eq_succ_of_ne_zero (Nat.ne_zero_of_lt hfuel)
  simp only [List.length_cons, List.length_append] at hfuel
  have hread :=
    h fuel depth' (',' :: (cs' ++ (bs' ++ '\x7d' :: rest))) (by omega) (by omega)
      (stops_cons (by decide))
  have hmore := hrest fuel depth' bs' rest (by omega) (by omega) hbs'
  simp only [List.append_assoc, List.cons_append]
  rw [members?_key k hbs (by omega), value?_append hgap, hread]
  simp [skipBlank, hmore]

mutual

/-- **A value that is spelled is read.** -/
theorem Spells.readAs {j : Json} {cs : List Char} :
    Spells j cs → ReadAs cs (Piece.ofPrinted j) j.depth
  | .null =>
      readAs_of_succ fun _ _ _ _ _ _ => by simp [value?, skipBlank, afterWord?, Piece.ofPrinted]
  | .true =>
      readAs_of_succ fun _ _ _ _ _ _ => by simp [value?, skipBlank, afterWord?, Piece.ofPrinted]
  | .false =>
      readAs_of_succ fun _ _ _ _ _ _ => by simp [value?, skipBlank, afterWord?, Piece.ofPrinted]
  | .int n => readAs_of_succ fun _ _ _ _ _ hrest => value?_int n _ _ hrest
  | .float x => readAs_of_succ fun _ _ _ _ _ hrest => value?_floatText x _ _ hrest
  | .str s => readAs_stringText s
  | .nil => readAs_of_succ fun _ _ _ _ hdepth _ => by
      have hdeep := Nat.ne_zero_of_lt hdepth
      simp [value?, skipBlank, nested, hdeep, Piece.ofPrinted, Piece.itemsOfPrinted]
  | .arr hitems hbs => hitems.readAs.arr hitems.beginsLater hbs
  | .empty => readAs_of_succ fun _ _ _ _ hdepth _ => by
      have hdeep := Nat.ne_zero_of_lt hdepth
      simp [value?, skipBlank, nested, hdeep, Piece.ofPrinted, Piece.membersOfPrinted]
  | .obj hmembers hbs => hmembers.readAs.obj hmembers.beginsLater hbs

theorem SpellItems.readAs {items : List Json} {cs : List Char} :
    SpellItems items cs → ItemsReadAs cs (Piece.itemsOfPrinted items) (itemsDepth items)
  | .last hbs hj => by simpa [itemsDepth, Piece.itemsOfPrinted] using hj.readAs.lastItem hbs
  | .cons hbs hj hitems => hj.readAs.consItem hbs hitems.readAs

theorem SpellMembers.readAs {members : List (String × Json)} {cs : List Char} :
    SpellMembers members cs →
    MembersReadAs cs (Piece.membersOfPrinted members) (membersDepth members)
  | .last hbs hgap hj => by
      simpa [membersDepth, Piece.membersOfPrinted] using hj.readAs.lastMember _ hbs hgap
  | .cons hbs hgap hj hmembers => hj.readAs.consMember _ hbs hgap hmembers.readAs

end

/-! ## Reading whole texts -/

/-- **A text that spells a value is read**, if containers do not nest too deep, and blanks may
follow. -/
theorem Spells.parse? {j : Json} {cs : List Char} (h : Spells j cs)
    (hdepth : j.depth ≤ nestingLimit)
    {bs : List Char} (hbs : AreBlank bs) :
    Piece.parse? (String.ofList (cs ++ bs)) = some (Piece.ofPrinted j) := by
  have hstops : Stops bs := by
    cases bs with
    | nil => exact stops_nil
    | cons b bs =>
        refine stops_cons ?_
        rcases hbs b (List.mem_cons_self ..) with rfl | rfl | rfl | rfl <;> decide
  have hread := h.readAs (2 * (cs ++ bs).length + 2) nestingLimit bs (by simp; omega) hdepth hstops
  have hskip : skipBlank bs = [] := by simpa [skipBlank] using skipBlank_append hbs []
  rw [Piece.parse?, Piece.parseWithin?, String.toList_ofList]
  simp only [hread, hskip]
  rfl

theorem parse?_compact {j : Json} (h : j.depth ≤ nestingLimit) :
    Piece.parse? j.compact = some (Piece.ofPrinted j) := by
  have hread := (spells_compact j).parse? h areBlank_nil
  rwa [List.append_nil] at hread

/-- The first member of an object is read, whatever follows it. -/
theorem first_of_members? {k : String} {n : Int} {cs : List Char} (hcs : Stops cs)
    {fuel depth : Nat}
    (hfuel : (stringText k).length ≤ fuel + 2) {ms : List (Option Key × Piece)} {rest : List Char}
    (h : members? (fuel + 2) depth (stringText k ++ ':' :: ((toString n).toList ++ cs)) =
      some (ms, rest)) :
    ∃ ms', ms = (some ⟨k, k.toList.all isPlain⟩, readInt n) :: ms' := by
  have hkey := members?_key k areBlank_nil hfuel depth ((toString n).toList ++ cs)
  rw [List.nil_append] at hkey
  rw [hkey, value?_int n fuel depth hcs] at h
  dsimp only at h
  split at h
  · obtain ⟨⟨ms', after⟩, -, heq⟩ := Option.map_eq_some_iff.1 h
    obtain ⟨rfl, -⟩ := Prod.mk.inj heq
    exact ⟨ms', rfl⟩
  · obtain ⟨rfl, -⟩ := Prod.mk.inj (Option.some.inj h)
    exact ⟨[], rfl⟩
  · cases h

/-- However deep the rest of an object nests, what is read of it begins with its first member. -/
theorem first_of_parse?_compact {k : String} {n : Int} {members : List (String × Json)} {w : Piece}
    (h : Piece.parse? (Json.obj ((k, .int n) :: members)).compact = some w) :
    w = .unreadable ∨ ∃ ms, w = .obj ((⟨k, k.toList.all isPlain⟩, readInt n) :: ms) := by
  obtain ⟨cs, hcs, htext⟩ : ∃ cs, Stops cs ∧ compactChars (Json.obj ((k, .int n) :: members)) =
      '\x7b' :: (stringText k ++ ':' :: ((toString n).toList ++ cs)) := by
    cases members with
    | nil => exact ⟨['\x7d'], stops_cons (by decide), by simp [compactChars, compactMembers]⟩
    | cons m members =>
        exact ⟨',' :: (compactMembers (m :: members) ++ ['\x7d']), stops_cons (by decide),
          by simp [compactChars, compactMembers]⟩
  -- of the fuel, one step is for the object and two are for its first member
  obtain ⟨fuel, hfuel⟩ : ∃ fuel,
      2 * (compactChars (Json.obj ((k, .int n) :: members))).length + 2 = fuel + 3 :=
    ⟨2 * (compactChars (Json.obj ((k, .int n) :: members))).length - 1, by
      rw [htext, List.length_cons]; omega⟩
  have hlength : (stringText k).length ≤ fuel + 2 := by
    rw [htext] at hfuel
    simp only [List.length_cons, List.length_append] at hfuel
    omega
  rw [Piece.parse?, Piece.parseWithin?, compact, String.toList_ofList, hfuel, htext] at h
  have hvalue : value? (fuel + 3) nestingLimit
    ('\x7b' :: (stringText k ++ ':' :: ((toString n).toList ++ cs))) =
      (members? (fuel + 2) (nestingLimit - 1)
        (stringText k ++ ':' :: ((toString n).toList ++ cs))).map
        fun read => (nested nestingLimit (ofMembers read.1), read.2) := by
    simp only [value?, stringText, skipBlank]
    rfl
  rw [hvalue] at h
  cases hread : members? (fuel + 2) (nestingLimit - 1)
    (stringText k ++ ':' :: ((toString n).toList ++ cs)) with
  | none =>
      rw [hread] at h
      cases h
  | some read =>
      obtain ⟨ms, after⟩ := read
      obtain ⟨ms, rfl⟩ := first_of_members? hcs hlength hread
      rw [hread] at h
      dsimp only [Option.map_some] at h
      split at h
      · obtain rfl := Option.some.inj h
        rw [nested, if_neg (by decide), ofMembers]
        split
        · rename_i members hmembers
          obtain ⟨m, hm, hmembers⟩ := Option.bind_eq_some_iff.1 (List.mapM_cons.symm.trans hmembers)
          obtain ⟨ms, -, hmembers⟩ := Option.bind_eq_some_iff.1 hmembers
          obtain rfl := Option.some.inj hmembers
          obtain rfl := Option.some.inj hm
          exact .inr ⟨ms, rfl⟩
        · exact .inl rfl
      · cases h

end CallFlow.Json
