import CallFlow.Description
import CallFlow.Value.Basic

/-!
# Hosts

Implementations come from outside.  A callable takes arguments and possibly a receiver, gives a
value or a fault, and says what the receiver has become.  A host finds callables by path, and by
the name of a member of a receiver.

A method works on its receiver in place (`Work`): what it has written is there also if it fails
later.

`Registry` is a host made of tables.
-/

namespace CallFlow

/-- How many arguments a callable takes. -/
inductive ArgumentCount where
  | between (least most : Nat)
  | atLeast (least : Nat)
  deriving DecidableEq, Repr

/-- The count in words. -/
def ArgumentCount.text : ArgumentCount → String
  | .between least most =>
      if least = most then toString least else toString least ++ " to " ++ toString most
  | .atLeast least => "at least " ++ toString least

/-- A failure that a callable reports. -/
inductive HostFault where
  /-- There are no more items. -/
  | exhausted
  | failed (message : String)
  | arity (expected : ArgumentCount) (got : Nat)
  | type (expected : String) (got : Value)

/-- The failure in words. -/
def HostFault.text : HostFault → String
  | .exhausted => "iteration exhausted"
  | .failed message => message
  | .arity expected got =>
      "expected " ++ expected.text ++ " arguments, got " ++ toString got
  | .type expected got => "expected " ++ expected ++ ", got " ++ got.summary

/-- What a callable is called with. -/
structure Invocation where
  args : List Value
  kwargs : List (String × Value) := []
  receiver : Option Value := none

/-- What a callable answers, and what the receiver is afterwards. -/
structure Reply where
  result : Except HostFault Value
  receiver : Option Value

/-- An implementation. -/
abbrev Callable : Type := Invocation → Reply

namespace Invocation

/-- Calls an implementation.  It can change a receiver, but neither drop nor invent one. -/
def send (inv : Invocation) (f : Callable) : Reply :=
  let reply := f inv
  { reply with receiver := inv.receiver.map fun old => reply.receiver.getD old }

/-- Fails unless the number of arguments is in the range. -/
def expectArity (inv : Invocation) (least most : Nat) : Except HostFault Unit :=
  let got := inv.args.length
  if got < least || most < got then .error (.arity (.between least most) got) else .ok ()

/-- The only argument. -/
def single (inv : Invocation) : Except HostFault Value :=
  match inv.args with
  | [a] => .ok a
  | args => .error (.arity (.between 1 1) args.length)

/-- The only two arguments. -/
def pair (inv : Invocation) : Except HostFault (Value × Value) :=
  match inv.args with
  | [a, b] => .ok (a, b)
  | args => .error (.arity (.between 2 2) args.length)

/-- The receiver, which a method needs. -/
def needReceiver (inv : Invocation) : Except HostFault Value :=
  match inv.receiver with
  | some v => .ok v
  | none => .error (.failed "method called without a receiver")

end Invocation

/-! ## Programs on a receiver -/

/-- A program on a receiver, if there is one, that can fail.  It reads and writes the receiver in
place. -/
abbrev Work (α : Type) : Type := ExceptT HostFault (StateM (Option Value)) α

namespace Work

/-- The receiver, which a method needs. -/
def receiver : Work Value := do
  match ← get with
  | some v => return v
  | none => throw (.failed "method called without a receiver")

/-- Writes the receiver. -/
def write (v : Value) : Work Unit := set (some v)

/-- Does the work on a copy of a value, and leaves the receiver alone. -/
def onCopy {α : Type} (v : Value) (work : Work α) : Work α :=
  fun receiver => ((work (some v)).1, receiver)

end Work

namespace Callable

/-- A callable that works on the receiver. -/
def working (f : Invocation → Work Value) : Callable :=
  fun inv =>
    let (result, receiver) := f inv inv.receiver
    ⟨result, receiver⟩

/-- A callable that leaves the receiver alone. -/
def reading (f : Invocation → Except HostFault Value) : Callable :=
  fun inv => ⟨f inv, inv.receiver⟩

/-- A callable that changes the receiver when it succeeds. -/
def changing (f : Invocation → Except HostFault (Value × Value)) : Callable :=
  fun inv =>
    match f inv with
    | .ok (v, changed) => ⟨.ok v, inv.receiver.map fun _ => changed⟩
    | .error fault => ⟨.error fault, inv.receiver⟩

/-- A callable of one argument. -/
def unary (f : Value → Except HostFault Value) : Callable :=
  reading fun inv => do f (← inv.single)

/-- A callable of two arguments. -/
def binary (f : Value → Value → Except HostFault Value) : Callable :=
  reading fun inv => do
    let (a, b) ← inv.pair
    f a b

end Callable

/-- What finds implementations. -/
structure Host where
  /-- By path. -/
  resolve : String → Option Callable
  /-- By the name of a member of a receiver. -/
  resolveMember : Value → String → Option Callable

/-- Callables by path, and methods by the name of a type and of a member. -/
structure Registry where
  functions : Assoc String Callable := []
  methods : Assoc (String × String) Callable := []

namespace Registry

/-- Puts a callable under a path. -/
def register (r : Registry) (path : String) (f : Callable) : Registry :=
  { r with functions := Assoc.insert r.functions path f }

/-- Puts a method under the name of a type, or of `any`, and of a member. -/
def registerMethod (r : Registry) (typeName member : String) (f : Callable) : Registry :=
  { r with methods := Assoc.insert r.methods (typeName, member) f }

/-- Is there a callable under the path itself? -/
def contains (r : Registry) (path : String) : Bool := Assoc.contains r.functions path

/-- The callable under a path, else the method that the path names: its last part on the type that
the rest names. -/
def resolve (r : Registry) (path : String) : Option Callable :=
  match Assoc.find? r.functions path with
  | some f => some f
  | none =>
      match splitPath? path with
      | some key => Assoc.find? r.methods key
      | none => none

/-- The method of the receiver's type, else of any type. -/
def resolveMember (r : Registry) (receiver : Value) (member : String) : Option Callable :=
  match Assoc.find? r.methods (receiver.typeName, member) with
  | some f => some f
  | none => Assoc.find? r.methods ("any", member)

/-- The registry as a host. -/
def host (r : Registry) : Host := ⟨r.resolve, r.resolveMember⟩

/-- The paths and methods of the registry, in order. -/
def text (r : Registry) : String :=
  let paths := (Assoc.keys r.functions).mergeSort fun a b => decide (a ≤ b)
  let methods := (Assoc.keys r.methods).mergeSort fun a b =>
    decide (a.1 < b.1) || (a.1 == b.1 && decide (a.2 ≤ b.2))
  let method (m : String × String) : String :=
    "(" ++ Text.quoted m.1 ++ ", " ++ Text.quoted m.2 ++ ")"
  "Registry \x7b functions: " ++ Text.bracketed (paths.map Text.quoted) ++ ", methods: "
    ++ Text.bracketed (methods.map method) ++ " \x7d"

end Registry

end CallFlow
