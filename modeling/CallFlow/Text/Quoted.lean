import CallFlow.Text.Hex
import CallFlow.Text.Hidden
import CallFlow.Text.Split

/-!
# Quoted text

The form in which messages show a string inside a larger value: between double quotes, with a few
characters behind a backslash and hidden ones by their number.
-/

namespace CallFlow.Text

/-- How one character stands between quotes. -/
def quotedChar (c : Char) : List Char :=
  if c = '"' then ['\\', '"']
  else if c = '\\' then ['\\', '\\']
  else if c = '\n' then ['\\', 'n']
  else if c = '\r' then ['\\', 'r']
  else if c = '\t' then ['\\', 't']
  else if c.toNat = 0 then ['\\', '0']
  else if isHidden c then ['\\', 'u', '\x7b'] ++ hexDigits c.toNat ++ ['\x7d']
  else [c]

/-- A text between double quotes. -/
def quoted (s : String) : String :=
  String.ofList ('"' :: s.toList.flatMap quotedChar ++ ['"'])

/-- Texts in square brackets. -/
def bracketed (items : List String) : String := "[" ++ join ", " items ++ "]"

/-- Texts in braces. -/
def braced (items : List String) : String := "\x7b" ++ join ", " items ++ "\x7d"

end CallFlow.Text
