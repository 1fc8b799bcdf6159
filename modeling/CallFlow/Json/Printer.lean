import CallFlow.Json.Basic
import CallFlow.Text.Quoted
import CallFlow.Decimal.Layout

/-!
# Writing JSON text

Two printers of one value: `compact` without any white space, and `pretty` with a line for every
item and member and two spaces for every level.  A float that is not finite is written as `null`.
-/

namespace CallFlow.Json

open CallFlow.Decimal

/-- How a character stands in a JSON string: only quotes, backslashes and controls are escaped. -/
def escapedChar (c : Char) : List Char :=
  if c = '"' then ['\\', '"']
  else if c = '\\' then ['\\', '\\']
  else if c = '\n' then ['\\', 'n']
  else if c = '\r' then ['\\', 'r']
  else if c = '\t' then ['\\', 't']
  else if c.toNat = 8 then ['\\', 'b']
  else if c.toNat = 12 then ['\\', 'f']
  else if c.toNat < 0x20 then
    ['\\', 'u', '0', '0'] ++ (if c.toNat < 16 then ['0'] else []) ++ Text.hexDigits c.toNat
  else [c]

/-- A JSON string. -/
def stringText (s : String) : List Char := '"' :: s.toList.flatMap escapedChar ++ ['"']

/-- A number, or `null` for a float that is not finite. -/
def floatText (x : Float) : List Char :=
  match Layout.json.finite? x with
  | some s => s.toList
  | none => ['n', 'u', 'l', 'l']

mutual

/-- The characters of a value without white space. -/
def compactChars : Json → List Char
  | .null => ['n', 'u', 'l', 'l']
  | .bool true => ['t', 'r', 'u', 'e']
  | .bool false => ['f', 'a', 'l', 's', 'e']
  | .int n => (toString n).toList
  | .float x => floatText x
  | .str s => stringText s
  | .arr items => '[' :: compactItems items ++ [']']
  | .obj members => '\x7b' :: compactMembers members ++ ['\x7d']

/-- The items of an array, with commas between them. -/
def compactItems : List Json → List Char
  | [] => []
  | [j] => compactChars j
  | j :: rest => compactChars j ++ ',' :: compactItems rest

/-- The members of an object, with commas between them. -/
def compactMembers : List (String × Json) → List Char
  | [] => []
  | [(k, j)] => stringText k ++ ':' :: compactChars j
  | (k, j) :: rest => stringText k ++ ':' :: compactChars j ++ ',' :: compactMembers rest

end

/-- The text of a value without white space. -/
def compact (j : Json) : String := String.ofList (compactChars j)

/-- A line break and two spaces for every level. -/
def lineBreak (level : Nat) : List Char := '\n' :: List.replicate (2 * level) ' '

mutual

/-- The characters of a value that stands `level` levels deep, on lines of their own. -/
def prettyChars (level : Nat) : Json → List Char
  | .arr [] => ['[', ']']
  | .obj [] => ['\x7b', '\x7d']
  | .arr (j :: rest) => '[' :: prettyItems level (j :: rest) ++ lineBreak level ++ [']']
  | .obj (m :: rest) => '\x7b' :: prettyMembers level (m :: rest) ++ lineBreak level ++ ['\x7d']
  | .null => ['n', 'u', 'l', 'l']
  | .bool true => ['t', 'r', 'u', 'e']
  | .bool false => ['f', 'a', 'l', 's', 'e']
  | .int n => (toString n).toList
  | .float x => floatText x
  | .str s => stringText s

/-- The items of an array at the given level, each on its line. -/
def prettyItems (level : Nat) : List Json → List Char
  | [] => []
  | [j] => lineBreak (level + 1) ++ prettyChars (level + 1) j
  | j :: rest => lineBreak (level + 1) ++ prettyChars (level + 1) j ++ ',' :: prettyItems level rest

/-- The members of an object at the given level, each on its line. -/
def prettyMembers (level : Nat) : List (String × Json) → List Char
  | [] => []
  | [(k, j)] => lineBreak (level + 1) ++ stringText k ++ [':', ' '] ++ prettyChars (level + 1) j
  | (k, j) :: rest =>
      lineBreak (level + 1) ++ stringText k ++ [':', ' '] ++ prettyChars (level + 1) j
        ++ ',' :: prettyMembers level rest

end

/-- The text of a value on several lines. -/
def pretty (j : Json) : String := String.ofList (prettyChars 0 j)

end CallFlow.Json
