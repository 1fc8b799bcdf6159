import CallFlow.Graph.Basic
import CallFlow.Composition.Reach

/-!
# Checking a graph

A mapping can be part of a composition when its target can be written and both its ends exist.
`Graph.check` validates all descriptions and all mappings of a graph.
-/

namespace CallFlow

namespace Graph

/-- The calls that an execution of the composition can use: those that its start reaches. -/
def usedCalls (g : Graph) (id : CompositionId) : Except GraphFault (List CallId) := do
  let c ← g.composition id
  match ← g.startOf id with
  | none => .ok []
  | some start => .ok (c.reachFrom start)

/-- Is the description free of faults? -/
def checkDescription (d : Description) : Except GraphFault Unit :=
  match d.fault? with
  | some fault => .error (.invalidDescription d.name fault)
  | none => .ok ()

/-- Does a description have the port? -/
def hasPort (d : Description) : Port → Bool
  | .param i => i.toNat < d.params.length
  | .receiver => d.receiver.isSome
  | .output => true
  | .selfOutput => d.selfOutput.isSome

/-- Does a function have the port? -/
def checkPort (g : Graph) (id : CompositionId) (function : FunctionId) (port : Port) :
    Except GraphFault Unit := do
  let d ← g.function function
  if hasPort d port then .ok ()
  else .error (.invalidMapping id (.missingPort d.name port))

/-- Does the endpoint exist in the composition, which is looked up under `id`? -/
def checkEndpoint (g : Graph) (id : CompositionId) (c : Composition) :
    Endpoint → Except GraphFault Unit
  | .call call port =>
      match c.call? call with
      | some d => g.checkPort id d.function port
      | none => .error (.callNotFound id call)
  | .boundary port =>
      match c.represents with
      | some function => g.checkPort id function port
      | none => .error (.invalidMapping id .noBoundary)
  | .constant _ | .variable _ => .ok ()

/-- Why an endpoint can never be a target, if it cannot. -/
def targetFault? : Endpoint → Option MappingFault
  | .constant _ => some .constantTarget
  | .call call port => if port.isOutput then some (.outputTarget (.call call port)) else none
  | .boundary port => if port.isOutput then none else some (.inputTarget (.boundary port))
  | .variable _ => none

/-- Can the mapping be part of the composition under `id`? -/
def checkMapping (g : Graph) (id : CompositionId) (m : Mapping) : Except GraphFault Unit := do
  let c ← g.composition id
  match m.priority with
  | some call =>
      unless c.hasCall call do
        .error (.invalidMapping id (.foreignPriority call))
  | none => pure ()
  match targetFault? m.target with
  | some fault => .error (.invalidMapping id fault)
  | none => pure ()
  g.checkEndpoint id c m.source
  g.checkEndpoint id c m.target

/-- Are all descriptions and mappings of the graph in order?  A composition is looked up again under
the identity inside it. -/
def check (g : Graph) : Except GraphFault Unit := do
  (Assoc.values g.functions).forM checkDescription
  (Assoc.values g.compositions).forM fun c => c.mappings.forM (g.checkMapping c.id)

end Graph

end CallFlow
