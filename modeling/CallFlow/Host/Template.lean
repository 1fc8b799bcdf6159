import CallFlow.Host.Arithmetic
import CallFlow.Text.Split

/-!
# Format templates

A template is text with holes between braces.  A hole without a name takes the next positional
argument, and a hole with a name the keyword argument of the name.
-/

namespace CallFlow.Host

/-- The value for a hole, and the positional arguments that are left. -/
def holeValue (kwargs : List (String × Value)) (args : List Value) (name : String) :
    Except HostFault (Value × List Value) :=
  if name = "" then
    match args with
    | v :: rest => .ok (v, rest)
    | [] => fail "not enough arguments for format string"
  else
    match Assoc.find? kwargs name with
    | some v => .ok (v, args)
    | none => fail ("missing format argument '" ++ name ++ "'")

/-- What is behind a hole is shorter than what is behind the text before it. -/
theorem length_behind_lt {text before opened name rest : List Char}
    (hopen : Text.cutAt '\x7b' text = some (before, opened))
    (hclose : Text.cutAt '\x7d' opened = some (name, rest)) :
    rest.length < text.length := by
  obtain ⟨-, rfl⟩ := Text.cutAt_eq_some_iff.1 hopen
  obtain ⟨-, rfl⟩ := Text.cutAt_eq_some_iff.1 hclose
  simp only [List.length_append, List.length_cons]
  omega

/-- Fills the holes of a text from left to right, behind what is there already.  Only the text
behind a hole is looked at again, not the value that has been put in. -/
def fill (kwargs : List (String × Value)) (args : List Value) (out : String) (text : List Char) :
    Except HostFault String :=
  match _ : Text.cutAt '\x7b' text with
  | none => .ok (out ++ String.ofList text)
  | some (before, opened) =>
      match _ : Text.cutAt '\x7d' opened with
      | none => fail "unclosed '\x7b' in format string"
      | some (name, rest) => do
          let (v, args) ← holeValue kwargs args (String.ofList name)
          fill kwargs args (out ++ String.ofList before ++ v.text) rest
termination_by text.length
decreasing_by exact length_behind_lt ‹_› ‹_›

/-- Fills the template that is the first argument with the other arguments. -/
def format (inv : Invocation) : Except HostFault Value :=
  match inv.args with
  | .str template :: args => do return .str (← fill inv.kwargs args "" template.toList)
  | other :: _ => .error (.type "str" other)
  | [] => .error (.arity (.atLeast 1) 0)

end CallFlow.Host
