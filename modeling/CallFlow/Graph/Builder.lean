import CallFlow.Graph.Check

/-!
# Building a graph

The operations that grow a graph.  An operation either succeeds with a result, or fails; either way
it leaves a graph, which after a failure is the one it found.  Only `sequence` consists of several
steps and keeps those before the failing one.

Identities are words.  The operations count up without regard to that, so they are those of a
builder as long as there are words for the next free identities (`Graph.Counted`).
-/

namespace CallFlow

namespace Graph

/-- There are words for the next free identities: fewer definitions of each kind were made than
there are words. -/
structure Counted (g : Graph) : Prop where
  functions : g.nextFunction < UInt32.size
  compositions : g.nextComposition < UInt32.size
  calls : g.nextCall < UInt32.size

instance (g : Graph) : Decidable g.Counted :=
  decidable_of_iff (g.nextFunction < UInt32.size ∧ g.nextComposition < UInt32.size ∧
    g.nextCall < UInt32.size) ⟨fun ⟨hf, hc, hcall⟩ => ⟨hf, hc, hcall⟩,
      fun ⟨hf, hc, hcall⟩ => ⟨hf, hc, hcall⟩⟩

/-- An operation on a graph that can fail. -/
abbrev Edit (α : Type) : Type := ExceptT GraphFault (StateM Graph) α

namespace Edit

/-- Runs an operation. -/
def run {α : Type} (edit : Edit α) (g : Graph) : Except GraphFault α × Graph := edit g

/-- The operation that succeeds or fails as a check on the graph does. -/
def ofCheck {α : Type} (f : Graph → Except GraphFault α) : Edit α := fun g => (f g, g)

/-- Changes a function description. -/
def modifyFunction (id : FunctionId) (f : Description → Description) : Edit Unit := do
  let _ ← ofCheck fun g => g.function id
  modify fun g => { g with functions := Assoc.modify g.functions id f }

/-- Changes a composition. -/
def modifyComposition (id : CompositionId) (f : Composition → Composition) : Edit Unit := do
  let _ ← ofCheck fun g => g.composition id
  modify fun g => { g with compositions := Assoc.modify g.compositions id f }

/-! ## Functions -/

/-- Adds a function description that has no body and no implementation. -/
def addFunction (name : String) (params : List Param) : Edit FunctionId := do
  let g ← get
  let id : FunctionId := ⟨g.nextFunction⟩
  let d := Description.plain id name params
  ofCheck fun _ => checkDescription d
  set { g with
    functions := Assoc.insertSorted FunctionId.before g.functions id d
    nextFunction := g.nextFunction + 1 }
  return id

/-- Adds a function description with an implementation. -/
def addNative (name : String) (params : List Param) (path : String) : Edit FunctionId := do
  let id ← addFunction name params
  modifyFunction id fun d => { d with implementation := some path }
  return id

/-- Sets or clears the default of the first parameter with the name. -/
def setDefault (id : FunctionId) (param : String) (value : Option Constant) : Edit Unit := do
  let d ← ofCheck fun g => g.function id
  match d.paramIndex? param with
  | none => throw (.invalidDescription d.name (.noParameter param))
  | some _ =>
      let i := d.params.findIdx fun p => p.name == param
      modifyFunction id fun d =>
        { d with params := d.params.modify i fun p => { p with default := value } }

/-! ## Compositions -/

/-- Adds a composition without calls, as the body of a function if one is given. -/
def addComposition (name : String) (represents : Option FunctionId) : Edit CompositionId := do
  let id : CompositionId := ⟨(← get).nextComposition⟩
  match represents with
  | some function => modifyFunction function fun d => { d with body := some id }
  | none => pure ()
  modify fun g =>
    { g with
      compositions := Assoc.insertSorted CompositionId.before g.compositions id
        (Composition.empty id name represents)
      nextComposition := g.nextComposition + 1 }
  return id

/-- Applies a function inside a composition. -/
def addCall (id : CompositionId) (function : FunctionId) : Edit CallId := do
  let _ ← ofCheck fun g => g.function function
  let call : CallId := ⟨(← get).nextCall⟩
  modifyComposition id fun c => { c with calls := c.calls ++ [⟨call, function, .stop, none⟩] }
  modify fun g => { g with nextCall := g.nextCall + 1 }
  return call

/-- Fails unless the composition has the call. -/
def requireCall (id : CompositionId) (call : CallId) : Edit Unit := do
  let c ← ofCheck fun g => g.composition id
  unless c.hasCall call do throw (.callNotFound id call)

/-- Gives a call a label. -/
def setLabel (id : CompositionId) (call : CallId) (label : String) : Edit Unit := do
  requireCall id call
  modifyComposition id fun c => c.modifyCall call fun d => { d with label := some label }

/-- Declares a call as a start, once. -/
def setStart (id : CompositionId) (call : CallId) : Edit Unit := do
  requireCall id call
  modifyComposition id fun c =>
    if c.starts.contains call then c else { c with starts := c.starts ++ [call] }

/-- Sets where control goes after a call.  All calls it can go to must be there. -/
def setSuccessor (id : CompositionId) (call : CallId) (successor : Successor) : Edit Unit := do
  let _ ← ofCheck fun g => g.composition id
  for target in successor.targets do requireCall id target
  requireCall id call
  modifyComposition id fun c => c.modifyCall call fun d => { d with successor }

/-- Makes each call of a list lead to the next one. -/
def chain (id : CompositionId) : List CallId → Edit Unit
  | [] => pure ()
  | [_] => pure ()
  | a :: b :: rest => do
      setSuccessor id a (.next b)
      chain id (b :: rest)

/-- Chains the calls and makes the first one the start. -/
def sequence (id : CompositionId) (calls : List CallId) : Edit Unit := do
  chain id calls
  match calls with
  | [] => pure ()
  | first :: _ => setStart id first

/-- Adds a mapping that passes the check. -/
def addMapping (id : CompositionId) (m : Mapping) : Edit Unit := do
  ofCheck fun g => g.checkMapping id m
  modifyComposition id fun c => { c with mappings := c.mappings ++ [m] }

end Edit

end Graph

end CallFlow
