import CallFlow.Decimal.Numeral
import CallFlow.Json.Piece
import CallFlow.Text.Hex

/-!
# Reading JSON text

`Piece.parse?` reads a text that is well formed.  Numbers out of the range of floats, strings with
half of a surrogate pair and containers that nest too deep are pieces without a value in it, and
`Json.parse?` refuses a text with such a piece.  Fuel is counted in characters, since every two
steps consume one.
-/

namespace CallFlow.Json

open CallFlow.Decimal

/-- Drops white space at the front. -/
def skipBlank : List Char → List Char
  | [] => []
  | c :: rest =>
      if c = ' ' || c = '\n' || c = '\t' || c = '\r' then skipBlank rest else c :: rest

/-- The rest after a keyword. -/
def afterWord? : (word : List Char) → List Char → Option (List Char)
  | [], rest => some rest
  | _ :: _, [] => none
  | w :: word, c :: rest => if w = c then afterWord? word rest else none

/-! ## Strings -/

/-- Four hexadecimal digits at the front. -/
def hexUnit? : List Char → Option (Nat × List Char)
  | a :: b :: c :: d :: rest => do
      let a ← Text.hexDigit? a
      let b ← Text.hexDigit? b
      let c ← Text.hexDigit? c
      let d ← Text.hexDigit? d
      some (((a * 16 + b) * 16 + c) * 16 + d, rest)
  | _ => none

/-- The character that an escape by number denotes, after the backslash and the `u`.  A leading half
of a surrogate pair needs the other half right behind it; a half alone denotes nothing. -/
def escapedPoint? (cs : List Char) : Option (Option Char × List Char) := do
  let (unit, rest) ← hexUnit? cs
  if 0xDC00 ≤ unit && unit ≤ 0xDFFF then some (none, rest)
  else if 0xD800 ≤ unit && unit ≤ 0xDBFF then
    match rest with
    | '\\' :: 'u' :: more =>
        let (low, after) ← hexUnit? more
        if 0xDC00 ≤ low && low ≤ 0xDFFF then
          some (Char.ofNat (0x10000 + (unit - 0xD800) * 0x400 + (low - 0xDC00)), after)
        else some (none, rest)
    | _ => some (none, rest)
  else some (Char.ofNat unit, rest)

/-- The character behind a backslash, if it denotes one. -/
def escaped? : List Char → Option (Option Char × List Char)
  | '"' :: rest => some ('"', rest)
  | '\\' :: rest => some ('\\', rest)
  | '/' :: rest => some ('/', rest)
  | 'b' :: rest => some ('\x08', rest)
  | 'f' :: rest => some ('\x0c', rest)
  | 'n' :: rest => some ('\n', rest)
  | 'r' :: rest => some ('\r', rest)
  | 't' :: rest => some ('\t', rest)
  | 'u' :: rest => escapedPoint? rest
  | _ => none

/-- A string, as it is written. -/
structure StringToken where
  /-- The characters, if every escape denotes one. -/
  value? : Option String
  /-- Is it written without escapes? -/
  plain : Bool

/-- The string as a key. -/
def StringToken.key? (t : StringToken) : Option Key := t.value?.map fun s => ⟨s, t.plain⟩

/-- The string as a piece. -/
def StringToken.piece (t : StringToken) : Piece :=
  match t.value? with
  | some s => .str s
  | none => .unreadable

/-- The rest of a string up to its closing quote; `acc` holds what was read, last character
first. -/
def stringTail? : (fuel : Nat) → (acc : List (Option Char)) → (plain : Bool) → List Char →
    Option (StringToken × List Char)
  | 0, _, _, _ => none
  | _ + 1, _, _, [] => none
  | fuel + 1, acc, plain, c :: rest =>
      if c = '"' then some (⟨(acc.reverse.mapM id).map String.ofList, plain⟩, rest)
      else if c = '\\' then
        match escaped? rest with
        | some (d, after) => stringTail? fuel (d :: acc) false after
        | none => none
      else if c.toNat < 0x20 then none
      else stringTail? fuel (some c :: acc) plain rest

/-! ## Numbers -/

/-- The value of a numeral.  Without fraction and exponent it is a whole number if it fits 64 bits;
minus zero is a float. -/
def ofNumeral (n : Numeral) (isWhole : Bool) : Piece :=
  let value := ofDigits n.whole
  let opposite : Int := -value
  if isWhole && value < UInt64.size && !n.negative then .int value
  else if isWhole && opposite < 0 && Int64.minValue.toInt ≤ opposite && n.negative then
    .int opposite
  else
    match n.scaled? with
    | some x => .float x
    | none => .unreadable

/-- A number without its minus sign.  No zero may stand before other digits. -/
def number? (negative : Bool) (cs : List Char) : Option (Piece × List Char) := do
  let (whole, rest) := spanDigits cs
  if whole.isEmpty || (whole.head? == some 0 && 1 < whole.length) then none
  else
    let (fraction, hasPoint, rest) :=
      match rest with
      | '.' :: r =>
          let (ds, after) := spanDigits r
          (ds, true, after)
      | r => ([], false, r)
    if hasPoint && fraction.isEmpty then none
    else
      let (e, rest) ← exponent? rest
      some (ofNumeral ⟨negative, whole, fraction, e.getD 0⟩ (!hasPoint && e.isNone), rest)

/-! ## Values -/

/-- A container where containers may nest `depth` levels. -/
def nested (depth : Nat) (w : Piece) : Piece := if depth = 0 then .unreadable else w

/-- An object whose keys are readable. -/
def ofMembers (members : List (Option Key × Piece)) : Piece :=
  match members.mapM fun (key?, w) => key?.map fun key => (key, w) with
  | some members => .obj members
  | none => .unreadable

mutual

/-- A value at the front, where containers may nest `depth` levels. -/
def value? : (fuel : Nat) → (depth : Nat) → List Char → Option (Piece × List Char)
  | 0, _, _ => none
  | fuel + 1, depth, cs =>
      match skipBlank cs with
      | [] => none
      | c :: rest =>
          if c = '"' then
            (stringTail? fuel [] true rest).map fun (t, after) => (t.piece, after)
          else if c = '[' then
            match skipBlank rest with
            | ']' :: after => some (nested depth (.arr []), after)
            | _ =>
                (items? fuel (depth - 1) rest).map fun (ws, after) =>
                  (nested depth (.arr ws), after)
          else if c = '\x7b' then
            match skipBlank rest with
            | '\x7d' :: after => some (nested depth (.obj []), after)
            | _ =>
                (members? fuel (depth - 1) rest).map fun (ms, after) =>
                  (nested depth (ofMembers ms), after)
          else if c = 'n' then (afterWord? ['u', 'l', 'l'] rest).map fun after => (.null, after)
          else if c = 't'
            then (afterWord? ['r', 'u', 'e'] rest).map fun after => (.bool true, after)
          else if c = 'f' then
            (afterWord? ['a', 'l', 's', 'e'] rest).map fun after => (.bool false, after)
          else if c = '-' then number? true rest
          else number? false (c :: rest)

/-- The items of an array that has some, with the closing bracket. -/
def items? : (fuel : Nat) → (depth : Nat) → List Char → Option (List Piece × List Char)
  | 0, _, _ => none
  | fuel + 1, depth, cs =>
      match value? fuel depth cs with
      | none => none
      | some (w, rest) =>
          match skipBlank rest with
          | ',' :: more => (items? fuel depth more).map fun (ws, after) => (w :: ws, after)
          | ']' :: after => some ([w], after)
          | _ => none

/-- The members of an object that has some, with the closing brace. -/
def members? : (fuel : Nat) → (depth : Nat) → List Char →
    Option (List (Option Key × Piece) × List Char)
  | 0, _, _ => none
  | fuel + 1, depth, cs =>
      match skipBlank cs with
      | '"' :: r =>
          match stringTail? fuel [] true r with
          | none => none
          | some (t, rest) =>
              match skipBlank rest with
              | ':' :: rest =>
                  match value? fuel depth rest with
                  | none => none
                  | some (w, rest) =>
                      match skipBlank rest with
                      | ',' :: more =>
                          (members? fuel depth more).map fun (ms, after) =>
                            ((t.key?, w) :: ms, after)
                      | '\x7d' :: after => some ([(t.key?, w)], after)
                      | _ => none
              | _ => none
      | _ => none

end

/-- Reads a text that holds one value; containers have a value down to `depth` levels of nesting. -/
def Piece.parseWithin? (depth : Nat) (text : String) : Option Piece :=
  let cs := text.toList
  match value? (2 * cs.length + 2) depth cs with
  | some (w, rest) => if (skipBlank rest).isEmpty then some w else none
  | none => none

/-- How deep containers may nest in a text. -/
def nestingLimit : Nat := 127

/-- Reads a text that holds one value. -/
def Piece.parse? (text : String) : Option Piece := Piece.parseWithin? nestingLimit text

/-- The value in a text, where containers may nest `depth` levels. -/
def parseWithin? (depth : Nat) (text : String) : Option Json :=
  (Piece.parseWithin? depth text).bind Piece.toJson?

/-- The value in a text. -/
def parse? (text : String) : Option Json := parseWithin? nestingLimit text

end CallFlow.Json
