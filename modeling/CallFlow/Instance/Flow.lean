import CallFlow.Arguments
import CallFlow.Instance.Frame

/-!
# Data flow

The steps that move values through a scene: `ingest` resolves the authoritative group of a slot,
`seed` gives variables their first values, `settle` does what the completion of a call entails,
and `finish` moves the results out to the boundary.  A step that fails leaves the scene as far as
it came.
-/

namespace CallFlow

/-- A step in a scene that can fail. -/
abbrev Flow (α : Type) : Type := ExceptT RunFault (StateM Scene) α

namespace Flow

/-- Runs a step. -/
def run {α : Type} (flow : Flow α) (s : Scene) : Except RunFault α × Scene := flow s

/-- The step that only looks at the scene. -/
def look {α : Type} (f : Scene → Except RunFault α) : Flow α := fun s => (f s, s)

/-- Writes into a slot. -/
def write (slot : Slot) (writes : List (Option Strategy × Value)) : Flow Bool :=
  fun s => s.write slot writes

/-- Writes what a group of mappings reads into a slot. -/
def writeGroup (slot : Slot) (group : List Mapping) : Flow Bool := do
  write slot (← look fun s => s.readGroup group)

/-- Writes what the authoritative group of a slot reads into it.  The result says whether anything
was written. -/
def ingest (slot : Slot) : Flow Bool := do
  let group ← look fun s =>
    (s.frame.wiring.authoritative slot).mapError (.ambiguous s.frame.wiring.composition)
  match group with
  | some group => writeGroup slot group
  | none => return false

/-- Ingests several slots. -/
def ingestAll : List Slot → Flow Unit
  | [] => pure ()
  | slot :: rest => do
      let _ ← ingest slot
      ingestAll rest

/-! ## Variables -/

/-- Refreshes variables from the variables they read.  `pending` are those still to be refreshed and
`refreshed` those that were; a variable that was written puts its readers at the end of `pending`.
The result has the variables that were written, in order.  Since every variable is refreshed once at
most, the fuel of `propagate` is enough. -/
def refresh : (fuel : Nat) → (pending refreshed : List String) → Flow (List String)
  | 0, _, _ => return []
  | _ + 1, [], _ => return []
  | fuel + 1, name :: pending, refreshed =>
      if refreshed.contains name then refresh fuel pending refreshed
      else do
        let wiring := (← get).frame.wiring
        match wiring.current? (.variable name) with
        | none => refresh fuel pending (name :: refreshed)
        | some group =>
            let written ← writeGroup (.variable name) group
            let more := if written then wiring.readers name else []
            let others ← refresh fuel (pending ++ more) (name :: refreshed)
            return if written then name :: others else others

/-- Refreshes all variables downstream of those that have changed; the result has those that were
written. -/
def propagate (changed : List String) : Flow (List String) := do
  let wiring := (← get).frame.wiring
  let pending := changed.flatMap wiring.readers
  let count := wiring.writtenVariables.length
  refresh (pending.length + count * count + 1) pending []

/-- What the variables that are not bound yet start from, read before any of them is written. -/
def seeds (s : Scene) :
    List String → Except RunFault (List (String × List (Option Strategy × Value)))
  | [] => .ok []
  | name :: rest =>
      let isBound := (Assoc.find? s.frame.vars name).any Terminal.isFresh
      match isBound, s.frame.wiring.current? (.variable name) with
      | false, some group => do
          let writes ← s.readGroup group
          return (name, writes) :: (← seeds s rest)
      | _, _ => seeds s rest

/-- Writes seeds; the result has the variables that were written. -/
def plant : List (String × List (Option Strategy × Value)) → Flow (List String)
  | [] => return []
  | (name, writes) :: rest => do
      let written ← write (.variable name) writes
      let others ← plant rest
      return if written then name :: others else others

/-- Gives variables that are not bound yet their first values. -/
def seed : Flow Unit := do
  let writes ← look fun s => seeds s s.frame.wiring.writtenVariables
  let _ ← propagate (← plant writes)

/-! ## Completion of a call -/

/-- The values that accumulating mappings push, read before any of them is written. -/
def pushes (s : Scene) : List Mapping → Except RunFault (List (Slot × Value))
  | [] => .ok []
  | m :: rest => do
      let v ← s.read m
      let others ← pushes s rest
      match v, Slot.of? m.target with
      | some v, some slot => return (slot, v) :: others
      | _, _ => return others

/-- Appends pushed values; the result has the variables among the slots, as often as they occur. -/
def pushAll : List (Slot × Value) → Flow (List String)
  | [] => return []
  | (slot, v) :: rest => do
      let _ ← write slot [(some .append, v)]
      let others ← pushAll rest
      match slot with
      | .variable name => return name :: others
      | _ => return others

/-- Ingests variables; the result has those that were written. -/
def feed : List String → Flow (List String)
  | [] => return []
  | name :: rest => do
      let written ← ingest (.variable name)
      let others ← feed rest
      return if written then name :: others else others

/-- What the completion of a call entails: its groups become authoritative, its accumulating
mappings push, and the variables it feeds are refreshed, with all that read them.  The result has
the variables that were written, in order. -/
def settle (call : CallId) : Flow (List String) := do
  modify fun s => { s with frame.wiring := s.frame.wiring.complete call }
  let values ← look fun s => pushes s (s.frame.wiring.accumulatingFrom call)
  let pushed ← pushAll values
  let fed ← feed ((← get).frame.wiring.fedBy call)
  let refreshed ← propagate (pushed ++ fed)
  return pushed ++ fed ++ refreshed

/-- Where control goes after a call that has completed. -/
def advance (s : Scene) (call : CallId) : Successor → Option CallId
  | .stop => none
  | .next target => some target
  | .loop iterate _ => some iterate
  | .branch ifTrue ifFalse =>
      let output := (Assoc.find? s.frame.calls call).bind fun c => c.terminals.output.peek
      if output.any Value.truthy then ifTrue else ifFalse

/-! ## Results -/

/-- Is the terminal at a port of the boundary there, and was it written? -/
def boundaryWritten? (s : Scene) (port : Port) : Option Bool :=
  s.boundary.bind fun ts => (ts.get? port).map Terminal.isWritten

/-- Moves the output to the boundary.  One into which nothing was mapped is written as nothing. -/
def finishOutput : Flow Unit := do
  let ingested ← ingest (.boundary .output)
  if !ingested && boundaryWritten? (← get) .output == some false then
    let _ ← write (.boundary .output) [(none, .none)]

/-- Moves the self-output to the boundary, if there is one.  One into which nothing was mapped is
written as the receiver is now. -/
def finishSelfOutput : Flow Unit := do
  match boundaryWritten? (← get) .selfOutput with
  | none => pure ()
  | some written =>
      let ingested ← ingest (.boundary .selfOutput)
      if !ingested && !written then
        let receiver := ((← get).peek (.boundary .receiver)).getD .none
        let _ ← write (.boundary .selfOutput) [(none, receiver)]

/-- Moves the results to the boundary. -/
def finish : Flow Unit := do
  finishOutput
  finishSelfOutput

end Flow

end CallFlow
