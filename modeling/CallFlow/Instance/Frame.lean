import CallFlow.Graph.Check
import CallFlow.Terminal
import CallFlow.Wiring

/-!
# Frames

A frame is a composition set up for running, without the bodies of its calls: the applied calls with
their terminals, the wiring, and the variables.  Only calls that the start reaches are applied, and
mappings from or to other calls are left out.

A scene is a frame together with the terminals of the call that it runs for, if it runs for one.
All data flow takes place in a scene.
-/

namespace CallFlow

/-- A call with its terminals. -/
structure AppliedCall where
  site : Site
  /-- The identity that the description has inside. -/
  function : FunctionId
  successor : Successor
  label : Option String
  terminals : Terminals

namespace AppliedCall

/-- A call with unwritten terminals. -/
def ofDescription (d : Description) (site : Site) (successor : Successor) (label : Option String)
    (checked : Bool) : AppliedCall :=
  { site, function := d.id, successor, label, terminals := .ofDescription d site checked }

/-- The call with unwritten terminals. -/
def reset (c : AppliedCall) : AppliedCall := { c with terminals := c.terminals.reset }

end AppliedCall

/-- A composition set up for running. -/
structure Frame where
  id : CompositionId
  name : String
  represents : Option FunctionId
  start : Option CallId
  calls : Assoc CallId AppliedCall
  wiring : Wiring
  vars : Assoc String Terminal

namespace Frame

/-- Is the endpoint other than a terminal of a call that is not used? -/
def isLive (used : List CallId) : Endpoint → Bool
  | .call id _ => used.contains id
  | _ => true

/-- Applies the used calls in order of declaration. -/
def applyCalls (g : Graph) (checked : Bool) (used : List CallId) :
    Assoc CallId AppliedCall → List CallDecl → Except RunFault (Assoc CallId AppliedCall)
  | calls, [] => .ok calls
  | calls, c :: rest =>
      if used.contains c.id then
        match g.function c.function with
        | .error fault => .error (.ofGraph fault)
        | .ok d =>
            let call := AppliedCall.ofDescription d (.call c.id) c.successor c.label checked
            applyCalls g checked used (Assoc.insert calls c.id call) rest
      else applyCalls g checked used calls rest

/-- The variable that an endpoint names. -/
def variableOf? : Endpoint → Option String
  | .variable name => some name
  | _ => none

/-- The variables that mappings name, each where it is named first. -/
def variablesOf (mappings : List Mapping) : Assoc String Terminal :=
  let names := mappings.flatMap fun m => [m.source, m.target].filterMap variableOf?
  names.eraseDups.map fun name => (name, Terminal.ofVariable name)

/-- Sets up a composition.  Several starts, calls of unknown functions and mappings that get in each
other's way are noticed here. -/
def ofGraph (g : Graph) (id : CompositionId) (checked : Bool) : Except RunFault Frame := do
  let c ← (g.composition id).mapError .ofGraph
  let start ← (g.startOf id).mapError .ofGraph
  let used ← (g.usedCalls id).mapError .ofGraph
  let calls ← applyCalls g checked used [] c.calls
  let live := c.mappings.filter fun m => isLive used m.source && isLive used m.target
  let wiring ← (Wiring.build c.id live).mapError (.ambiguous c.id)
  return { id, name := c.name, represents := c.represents, start, calls, wiring,
           vars := variablesOf c.mappings }

/-- The frame with unwritten terminals and variables, and without authority. -/
def reset (f : Frame) : Frame :=
  { f with
    calls := Assoc.mapValues AppliedCall.reset f.calls
    vars := Assoc.mapValues Terminal.reset f.vars
    wiring := f.wiring.reset }

end Frame

/-- A frame and the terminals of the call that it runs for. -/
structure Scene where
  frame : Frame
  boundary : Option Terminals

namespace Scene

/-! ## Reading -/

/-- The value that an endpoint shows. -/
def peek (s : Scene) : Endpoint → Option Value
  | .constant c => some (.ofConstant c)
  | .call id port =>
      (Assoc.find? s.frame.calls id).bind fun c => (c.terminals.get? port).bind Terminal.peek
  | .boundary port => s.boundary.bind fun ts => (ts.get? port).bind Terminal.peek
  | .variable name => (Assoc.find? s.frame.vars name).bind Terminal.peek

/-- The value that a mapping reads: nothing if its source is unwritten. -/
def read (s : Scene) (m : Mapping) : Except RunFault (Option Value) :=
  match s.peek m.source, m.sourceStrategy with
  | some v, some strategy =>
      match v.item strategy with
      | .ok item => .ok (some item)
      | .error reason => .error (.itemAccess m.source reason)
  | v, _ => .ok v

/-- What a group of mappings writes: one write for every source that is written. -/
def readGroup (s : Scene) : List Mapping → Except RunFault (List (Option Strategy × Value))
  | [] => .ok []
  | m :: rest => do
      let v ← s.read m
      let writes ← s.readGroup rest
      return (v.map fun v => (m.targetStrategy, v)).toList ++ writes

/-! ## Writing -/

/-- The terminal in a slot.  A variable that is not there yet is unwritten. -/
def terminal? (s : Scene) : Slot → Option Terminal
  | .call id port => (Assoc.find? s.frame.calls id).bind fun c => c.terminals.get? port
  | .boundary port => s.boundary.bind fun ts => ts.get? port
  | .variable name => some ((Assoc.find? s.frame.vars name).getD (Terminal.ofVariable name))

/-- Replaces the terminal in a slot. -/
def put (s : Scene) (slot : Slot) (t : Terminal) : Scene :=
  match slot with
  | .call id port =>
      { s with
        frame.calls := Assoc.modify s.frame.calls id fun c =>
          { c with terminals := c.terminals.set port t } }
  | .boundary port => { s with boundary := s.boundary.map fun ts => ts.set port t }
  | .variable name => { s with frame.vars := Assoc.insert s.frame.vars name t }

/-- Writes into a slot, one write after the other up to the first that fails.  The result says
whether there was anything to write. -/
def write (s : Scene) (slot : Slot) :
    List (Option Strategy × Value) → Except RunFault Bool × Scene
  | [] => (.ok false, s)
  | writes =>
      match s.terminal? slot with
      | none => (.error (.ambiguous s.frame.id (.missing slot)), s)
      | some t =>
          let (result, t') := t.writeAll writes
          (result.map fun _ => true, s.put slot t')

end Scene

end CallFlow
