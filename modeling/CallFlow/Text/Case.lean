import CallFlow.Text.CaseTable

/-!
# Upper and lower case of a text

Both maps go character by character.  One rule looks at the neighbours: a capital sigma at the end
of a word becomes the final form of the small letter.
-/

namespace CallFlow.Text

/-- The image of one character: an expansion if it has one, else its shift, else itself. -/
def caseMapped (expansions : List (Nat × List Nat)) (shifts : List Shift) (c : Char) : List Char :=
  match expansions.lookup c.toNat with
  | some points => points.map Char.ofNat
  | none =>
      match shifted? c.toNat shifts with
      | some n => [Char.ofNat n]
      | none => [c]

/-- The upper case of one character. -/
def upperChar (c : Char) : List Char := caseMapped upperExpansions upperShifts c

/-- The lower case of one character that does not depend on its neighbours. -/
def lowerChar (c : Char) : List Char := caseMapped lowerExpansions lowerShifts c

/-- The upper case of a text. -/
def upper (s : String) : String := String.ofList (s.toList.flatMap upperChar)

/-- Does the first character that is not passed over have case? -/
def meetsCased : List Char → Bool
  | [] => false
  | c :: rest =>
      if inRanges c.toNat caseIgnorableRanges then meetsCased rest
      else inRanges c.toNat casedRanges

/-- The lower case of the characters, where `before` holds those already passed, the last one first.
A sigma is final when a character with case precedes it and none follows. -/
def lowerFrom : (before : List Char) → List Char → List Char
  | _, [] => []
  | before, c :: rest =>
      let image :=
        if c = 'Σ' then [if meetsCased before && !meetsCased rest then 'ς' else 'σ']
        else lowerChar c
      image ++ lowerFrom (c :: before) rest

/-- The lower case of a text. -/
def lower (s : String) : String := String.ofList (lowerFrom [] s.toList)

end CallFlow.Text
