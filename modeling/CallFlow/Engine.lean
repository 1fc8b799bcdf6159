import CallFlow.Instance.Walk
import CallFlow.Snapshot

/-!
# The engine

An engine executes functions and compositions of one graph with the implementations of one host.  It
keeps what the last run has written down, and the calls and terminals that the last run left, for
inspection.

`Engine.executeWithin` takes the fuel that a run may use; `Engine.execute` gives so much that no run
that ends in practice lacks it.
-/

namespace CallFlow

/-- What to execute. -/
inductive RunTarget where
  | function (id : FunctionId)
  | composition (id : CompositionId)
  deriving DecidableEq, Repr

/-- What a run has left. -/
inductive LastRun where
  | entry (call : AppliedCall) (body : Option Instance)
  | standalone (inst : Instance)

/-- How an engine runs. -/
structure Config where
  /-- Are visits traced? -/
  tracing : Bool := false
  /-- Are writes checked against declared types? -/
  checked : Bool := true
  deriving DecidableEq, Repr

/-- An engine, with what its last run has left. -/
structure Engine where
  context : Context
  tracing : Bool
  log : Log
  last : Option LastRun

namespace Engine

/-- An engine that has not run. -/
def new (graph : Graph) (host : Host) (config : Config) : Engine :=
  { context := ⟨graph, host, config.checked⟩
    tracing := config.tracing
    log := Log.start config.tracing
    last := none }

/-- The calls of the last run, in the order in which their visits began. -/
def visits (e : Engine) : List CallId := e.log.visits.reverse

/-- The visits of the last run, in the order in which they ended; nothing if tracing is off. -/
def trace? (e : Engine) : Option (List TraceEntry) := e.log.trace.map List.reverse

/-- What the last run has left.  A function without a body leaves nothing to show. -/
def snapshot? (e : Engine) : Option Snapshot :=
  match e.last with
  | none => none
  | some (.entry _ body) => body.map Instance.snapshot
  | some (.standalone inst) => some inst.snapshot

/-! ## Functions -/

/-- Writes the inputs to the terminals of the parameters and the receiver, by name. -/
def bindInputs (d : Description) : Terminals → List (String × Value) → Except RunFault Terminals
  | ts, [] => .ok ts
  | ts, (name, v) :: rest =>
      match ts.writeInput? name v with
      | none => .error (.unknownInput name (.function d.name))
      | some (.error fault) => .error fault
      | some (.ok ts') => bindInputs d ts' rest

/-- The value that a terminal shows, or nothing as a value. -/
def shown (t : Terminal) : Value := t.peek.getD .none

/-- The results of a function: its output and its self-output, by name. -/
def outputsOf (ts : Terminals) : List (String × Value) :=
  let outputs := [(ts.output.name, shown ts.output)]
  match ts.selfOutput with
  | some t => Assoc.insert outputs t.name (shown t)
  | none => outputs

/-- Executes a function. -/
def runFunction (e : Engine) (fuel : Nat) (id : FunctionId) (inputs : List (String × Value)) :
    Fueled (List (String × Value)) Engine :=
  match e.context.graph.function id with
  | .error fault => some (.error (.ofGraph fault), e)
  | .ok d =>
      let call := AppliedCall.ofDescription d (.entry id) .stop none e.context.checked
      match bindInputs d call.terminals inputs with
      | .error fault => some (.error fault, e)
      | .ok terminals =>
          let run := Walk.runner (Walk.steps e.context fuel)
          match e.context.execute run 0 ⟨{ call with terminals }, none, none, e.log⟩ with
          | none => none
          | some (result, a) =>
              some (result.map fun _ => outputsOf a.call.terminals,
                { e with log := a.log, last := some (.entry a.call a.body) })

/-! ## Compositions -/

/-- Writes the inputs to the variables of a composition. -/
def bindVariables (f : Frame) : List (String × Value) → Except RunFault Frame
  | [] => .ok f
  | (name, v) :: rest =>
      match Assoc.find? f.vars name with
      | none => .error (.unknownInput name (.composition f.name))
      | some t =>
          match t.write none v with
          | .error fault => .error fault
          | .ok t' => bindVariables { f with vars := Assoc.insert f.vars name t' } rest

/-- Executes a composition that is no function's body. -/
def runStandalone (e : Engine) (fuel : Nat) (id : CompositionId)
    (inputs : List (String × Value)) : Fueled (List (String × Value)) Engine :=
  match Frame.ofGraph e.context.graph id e.context.checked with
  | .error fault => some (.error fault, e)
  | .ok frame =>
      match bindVariables frame.reset inputs with
      | .error fault => some (.error fault, e)
      | .ok frame =>
          match Walk.run e.context fuel 0 (Walk.begin (.mk frame [] []) none e.log) with
          | none => none
          | some (result, w) =>
              some (result.map fun _ => Assoc.mapValues shown w.scene.frame.vars,
                { e with log := w.log, last := some (.standalone w.toInstance) })

/-! ## Execution -/

/-- The function to blame for an exhaustion that no loop node was waiting for: the one executed, or
the one of the call whose visit failed first. -/
def blamed (e : Engine) (site : Site) : String :=
  let function :=
    match site with
    | .entry id => some id
    | .call _ => e.log.failed
  match function.bind fun id => Assoc.find? e.context.graph.functions id with
  | some d => d.name
  | none => site.text

/-- An exhaustion that leaves a run is a failure of the implementation that signalled it. -/
def escaped {α : Type} (e : Engine) : Except RunFault α → Except RunFault α
  | .error (.exhausted site) =>
      .error (.implementationFailure site (e.blamed site)
        "iteration exhausted outside a loop node" "")
  | result => result

/-- Runs a target.  A composition that is a function's body is run as that function. -/
def runTarget (e : Engine) (fuel : Nat) (target : RunTarget) (inputs : List (String × Value)) :
    Fueled (List (String × Value)) Engine :=
  match target with
  | .function id => e.runFunction fuel id inputs
  | .composition id =>
      match e.context.graph.composition id with
      | .error fault => some (.error (.ofGraph fault), e)
      | .ok c =>
          match c.represents with
          | some function => e.runFunction fuel function inputs
          | none => e.runStandalone fuel id inputs

/-- Executes a target with some fuel.  The log begins anew. -/
def executeWithin (e : Engine) (fuel : Nat) (target : RunTarget)
    (inputs : List (String × Value)) : Fueled (List (String × Value)) Engine :=
  match ({ e with log := Log.start e.tracing }).runTarget fuel target inputs with
  | none => none
  | some (result, e) => some (e.escaped result, e)

/-- The fuel of an ordinary execution. -/
def ampleFuel : Nat := 1000000000000000

/-- Executes a target. -/
def execute (e : Engine) (target : RunTarget) (inputs : List (String × Value)) :
    Fueled (List (String × Value)) Engine :=
  e.executeWithin ampleFuel target inputs

end Engine

end CallFlow
