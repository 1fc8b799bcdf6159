import CallFlow.Instance.Basic

/-!
# Snapshots

A snapshot shows an instance from outside: the applied calls with their terminals and values, the
variables, and every mapping with whether it takes part at the moment.  Bodies that calls have run
are shown in the same way.
-/

namespace CallFlow

/-- A terminal and its value. -/
structure TerminalView where
  name : String
  /-- Missing for variables. -/
  port : Option Port
  valueType : ValueType
  value : Option Value
  consumed : Bool

/-- A call and its terminals. -/
structure CallView where
  call : CallId
  function : FunctionId
  label : Option String
  successor : Successor
  terminals : List TerminalView

/-- A mapping, with its ends in words. -/
structure EdgeView where
  source : String
  sourceStrategy : Option Strategy
  target : String
  targetStrategy : Option Strategy
  priority : Option CallId
  authoritative : Bool

/-- A composition without the bodies of its calls. -/
structure FrameView where
  composition : CompositionId
  name : String
  represents : Option FunctionId
  calls : List CallView
  vars : List TerminalView
  edges : List EdgeView

/-- A composition and the bodies that its calls have run. -/
inductive Snapshot where
  | mk (view : FrameView) (bodies : List (CallId × Snapshot))

/-- The terminal as a snapshot shows it. -/
def Terminal.view (t : Terminal) : TerminalView :=
  { name := t.name, port := t.place.port?, valueType := t.valueType, value := t.peek,
    consumed := t.cell.consumed }

/-- The call as a snapshot shows it. -/
def AppliedCall.view (id : CallId) (c : AppliedCall) : CallView :=
  { call := id, function := c.function, label := c.label, successor := c.successor,
    terminals := c.terminals.toList.map Terminal.view }

/-- The mapping as a snapshot shows it. -/
def Mapping.view (m : Mapping) (authoritative : Bool) : EdgeView :=
  { source := m.source.text, sourceStrategy := m.sourceStrategy, target := m.target.text,
    targetStrategy := m.targetStrategy, priority := m.priority, authoritative }

/-- The frame as a snapshot shows it. -/
def Frame.view (f : Frame) : FrameView :=
  { composition := f.id, name := f.name, represents := f.represents
    calls := f.calls.map fun (id, c) => c.view id
    vars := (Assoc.values f.vars).map Terminal.view
    edges := f.wiring.edges.map fun (m, active) => m.view active }

mutual

/-- The instance as a snapshot shows it. -/
def Instance.snapshot : Instance → Snapshot
  | .mk frame _ bodies => .mk frame.view (bodySnapshots bodies)

/-- The bodies of the calls as a snapshot shows them. -/
def bodySnapshots : List (CallId × Instance) → List (CallId × Snapshot)
  | [] => []
  | (id, body) :: rest => (id, body.snapshot) :: bodySnapshots rest

end

namespace CallView

/-- The terminal at a port. -/
def terminal? (c : CallView) (port : Port) : Option TerminalView :=
  c.terminals.find? fun t => t.port == some port

end CallView

namespace Snapshot

/-- The composition itself. -/
def view : Snapshot → FrameView
  | mk view _ => view

/-- The value of the first variable with the name. -/
def valueOf? (s : Snapshot) (name : String) : Option Value :=
  (s.view.vars.find? fun v => v.name == name).bind (·.value)

/-- The first call in the list that has the identity or has it within its body; `found` says what
was found in the bodies. -/
def firstCall? (id : CallId) (found : List (CallId × Option CallView)) :
    List CallView → Option CallView
  | [] => none
  | c :: rest =>
      if c.call = id then some c
      else
        match Assoc.find? found c.call with
        | some (some inner) => some inner
        | _ => firstCall? id found rest

mutual

/-- The call with the identity, at any depth. -/
def findCall? (id : CallId) : Snapshot → Option CallView
  | mk view bodies => firstCall? id (findInBodies id bodies) view.calls

/-- What `findCall?` gives for the bodies of the calls. -/
def findInBodies (id : CallId) : List (CallId × Snapshot) → List (CallId × Option CallView)
  | [] => []
  | (call, body) :: rest => (call, body.findCall? id) :: findInBodies id rest

end

end Snapshot

end CallFlow
