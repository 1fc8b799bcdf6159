import CallFlow.Constant
import CallFlow.Id

/-!
# Compositions

A composition is one executable unit: applied calls, the control edges between them, and the
mappings that feed their terminals.  When it is the body of a function, boundary endpoints address
the terminals of the call it runs for.
-/

namespace CallFlow

/-- A terminal of a call, relative to the description of its function. -/
inductive Port where
  /-- The parameter at a position. -/
  | param (index : UInt16)
  | receiver
  | output
  | selfOutput
  deriving DecidableEq, Repr

namespace Port

/-- Does the call write the port, rather than read it? -/
def isOutput : Port → Bool
  | .output | .selfOutput => true
  | .param _ | .receiver => false

/-- The port of the parameter at a position. -/
def ofPosition (position : Nat) : Port := .param (UInt16.ofNat position)

/-- The port as messages show it. -/
def text : Port → String
  | .param i => "param[" ++ toString i.toNat ++ "]"
  | .receiver => "receiver"
  | .output => "output"
  | .selfOutput => "self_output"

end Port

/-- One end of a mapping. -/
inductive Endpoint where
  /-- A literal value, which can only be read. -/
  | constant (value : Constant)
  /-- A terminal of a call of the same composition. -/
  | call (call : CallId) (port : Port)
  /-- A terminal of the call that the composition runs for. -/
  | boundary (port : Port)
  /-- A named cell of the composition. -/
  | variable (name : String)
  deriving BEq

/-- The endpoint as messages show it. -/
def Endpoint.text : Endpoint → String
  | .constant c => "const " ++ c.text
  | .call id port => "call " ++ id.text ++ "." ++ port.text
  | .boundary port => "boundary." ++ port.text
  | .variable name => "var " ++ name

/-- Which part of a value a mapping reads or writes. -/
inductive Strategy where
  /-- A fixed position of a list. -/
  | index (position : Nat)
  /-- The next free position of a list, which can only be written. -/
  | append
  /-- A key of a map. -/
  | key (name : String)
  deriving DecidableEq, Repr

/-- The strategy as messages show it. -/
def Strategy.text : Strategy → String
  | .index i => "Index(" ++ toString i ++ ")"
  | .append => "Append"
  | .key k => "Key(" ++ Text.quoted k ++ ")"

/-- A data edge.  Mappings with one target compete for it; the priority names the call whose
completion makes this source count. -/
structure Mapping where
  source : Endpoint
  sourceStrategy : Option Strategy
  target : Endpoint
  targetStrategy : Option Strategy
  priority : Option CallId
  deriving BEq

/-- Where control goes after a call. -/
inductive Successor where
  | stop
  | next (call : CallId)
  /-- On to `iterate` while the call yields values, and to `next` when it is exhausted. -/
  | loop (iterate : CallId) (next : Option CallId)
  /-- By the truth of the call's own output. -/
  | branch (ifTrue ifFalse : Option CallId)
  deriving DecidableEq, Repr

namespace Successor

/-- The calls that control can go to. -/
def targets : Successor → List CallId
  | .stop => []
  | .next id => [id]
  | .loop iterate after => iterate :: after.toList
  | .branch ifTrue ifFalse => ifTrue.toList ++ ifFalse.toList

/-- Is the call a loop node? -/
def isLoop : Successor → Bool
  | .loop _ _ => true
  | _ => false

end Successor

/-- A function applied inside a composition. -/
structure CallDecl where
  id : CallId
  function : FunctionId
  successor : Successor
  label : Option String
  deriving DecidableEq, Repr

/-- An executable unit. -/
structure Composition where
  id : CompositionId
  name : String
  /-- The function whose body this is. -/
  represents : Option FunctionId
  /-- The declared start calls.  None makes an empty unit, and several are ambiguous. -/
  starts : List CallId
  calls : List CallDecl
  mappings : List Mapping
  deriving BEq

namespace Composition

/-- A composition without calls. -/
def empty (id : CompositionId) (name : String) (represents : Option FunctionId) : Composition :=
  ⟨id, name, represents, [], [], []⟩

/-- The first call with the identity. -/
def call? (c : Composition) (id : CallId) : Option CallDecl := c.calls.find? fun d => d.id == id

/-- Is there a call with the identity? -/
def hasCall (c : Composition) (id : CallId) : Bool := (c.call? id).isSome

/-- Changes the first call with the identity. -/
def modifyCall (c : Composition) (id : CallId) (f : CallDecl → CallDecl) : Composition :=
  { c with calls := go c.calls }
where
  /-- Changes the first call of a list that has the identity. -/
  go : List CallDecl → List CallDecl
    | [] => []
    | d :: rest => if d.id = id then f d :: rest else d :: go rest

end Composition

end CallFlow
