import CallFlow.Host.Basic
import CallFlow.Instance.Basic
import CallFlow.Instance.Flow
import CallFlow.Trace

/-!
# The walk

Execution follows the control edges from the start call, one visit at a time.  A visit ingests the
inputs of the call, executes it, settles what its completion entails, and says where control goes.
A call is executed by its implementation or by running its body, which is a walk of its own.

The walk takes fuel, of which every visit and every body uses some; `none` says that it ran out.  A
failed walk still says how far it came.
-/

namespace CallFlow

/-- What a run needs to know and does not change. -/
structure Context where
  graph : Graph
  host : Host
  /-- Are writes checked against declared types? -/
  checked : Bool

/-- The result of a step that takes fuel: nothing if it ran out, else success or failure and the
state it left. -/
abbrev Fueled (α σ : Type) : Type := Option (Except RunFault α × σ)

/-- A call in execution, with what is kept of it from visits before. -/
structure Active where
  call : AppliedCall
  handle : Option Callable
  body : Option Instance
  log : Log

/-- An instance in execution. -/
structure Walk where
  scene : Scene
  handles : Assoc CallId Callable
  bodies : Assoc CallId Instance
  log : Log

/-- What remains of a body and the call around it when the body has run. -/
structure Ran where
  body : Instance
  terminals : Terminals
  log : Log

/-- How a body is run: at a depth, for the terminals of a call. -/
abbrev Runner : Type := (depth : Nat) → Instance → Terminals → Log → Fueled Unit Ran

/-! ## Executing one call -/

/-- The callable for a call, and the handle to keep.  A member of the receiver comes first and is
not kept; what stands under the path is looked up once. -/
def Context.bind (ctx : Context) (d : Description) (site : Site) (handle : Option Callable)
    (receiver : Option Value) : Except RunFault Callable × Option Callable :=
  let member :=
    match receiver, d.implementation with
    | some v, some path => ctx.host.resolveMember v (memberOf path)
    | _, _ => none
  match member with
  | some f => (.ok f, handle)
  | none =>
      match handle.or (d.implementation.bind ctx.host.resolve) with
      | some f => (.ok f, some f)
      | none => (.error (.unbound site d.name d.implementation), none)

/-- Writes what a callable answered to the outputs of a call. -/
def Terminals.publish (ts : Terminals) (v : Value) (receiver : Option Value) :
    Except RunFault Unit × Terminals :=
  match ts.output.write none v with
  | .error fault => (.error fault, ts)
  | .ok output =>
      let ts := { ts with output }
      match ts.selfOutput with
      | none => (.ok (), ts)
      | some t =>
          match t.write none (receiver.getD .none) with
          | .error fault => (.error fault, ts)
          | .ok t' => (.ok (), { ts with selfOutput := some t' })

/-- The active call with other terminals. -/
def Active.withTerminals (a : Active) (ts : Terminals) : Active := { a with call.terminals := ts }

/-- Executes a call by its implementation. -/
def Context.invoke (ctx : Context) (d : Description) (a : Active) : Except RunFault Unit × Active :=
  match a.call.terminals.assemble d a.call.site with
  | (.error fault, ts) => (.error fault, a.withTerminals ts)
  | (.ok args, ts) =>
      let (found, handle) := ctx.bind d a.call.site a.handle args.receiver
      let a := { a.withTerminals ts with handle }
      match found with
      | .error fault => (.error fault, a)
      | .ok f =>
          let reply := Invocation.send ⟨args.positional, args.keyword, args.receiver⟩ f
          match reply.result with
          | .ok v =>
              let (result, ts) := ts.publish v reply.receiver
              (result, a.withTerminals ts)
          | .error .exhausted => (.error (.exhausted a.call.site), a)
          | .error fault =>
              (.error (.implementationFailure a.call.site d.name fault.text args.text), a)

/-- The terminals of a call after its body has run: read, if the body succeeded. -/
def Terminals.afterBody (ts : Terminals) : Except RunFault Unit → Terminals
  | .ok () => ts.consumeInputs
  | .error _ => ts

/-- The body that is kept of a call, or one that is set up now. -/
def Context.bodyOf (ctx : Context) (id : CompositionId) : Option Instance → Except RunFault Instance
  | some body => .ok body
  | none => Instance.ofGraph ctx.graph id ctx.checked

/-- Executes a call by running its body, which is set up the first time. -/
def Context.runBody (ctx : Context) (run : Runner) (depth : Nat) (d : Description)
    (id : CompositionId) (a : Active) : Fueled Unit Active :=
  match a.call.terminals.prepare d a.call.site with
  | (.error fault, ts) => some (.error fault, a.withTerminals ts)
  | (.ok (), ts) =>
      match ctx.bodyOf id a.body with
      | .error fault => some (.error fault, a.withTerminals ts)
      | .ok body =>
          match run (depth + 1) body.reset ts.resetOutputs a.log with
          | none => none
          | some (result, ran) =>
              some (result,
                { a.withTerminals (ran.terminals.afterBody result) with
                  body := some ran.body, log := ran.log })

/-- Executes a call whose inputs are ingested. -/
def Context.execute (ctx : Context) (run : Runner) (depth : Nat) (a : Active) :
    Fueled Unit Active :=
  match ctx.graph.function a.call.function with
  | .error fault => some (.error (.ofGraph fault), a)
  | .ok d =>
      match d.body with
      | some id => ctx.runBody run depth d id a
      | none => some (ctx.invoke d a)

/-! ## Visits -/

namespace Walk

/-- Does a step of data flow. -/
def flow {α : Type} (w : Walk) (step : Flow α) : Except RunFault α × Walk :=
  let (result, scene) := step.run w.scene
  (result, { w with scene })

/-- Takes over a call after its execution. -/
def keep (w : Walk) (id : CallId) (a : Active) : Walk :=
  { scene :=
      { w.scene with
        frame.calls := Assoc.modify w.scene.frame.calls id fun _ => a.call }
    handles :=
      match a.handle with
      | some f => Assoc.insert w.handles id f
      | none => w.handles
    bodies :=
      match a.body with
      | some body => Assoc.insert w.bodies id body
      | none => w.bodies
    log := a.log }

/-- Writes down how a visit ended. -/
def record (w : Walk) (depth : Nat) (id : CallId) (call : AppliedCall) (outcome : Outcome) : Walk :=
  { w with log := w.log.record ⟨depth, w.scene.frame.id, id, call.function, outcome⟩ }

/-- What follows the execution of a call.  A completed call is settled; an exhausted loop node goes
on behind the loop; any other failure ends the walk. -/
def afterCall (w : Walk) (depth : Nat) (id : CallId) (call : AppliedCall) :
    Except RunFault Unit → Except RunFault (Option CallId) × Walk
  | .ok () =>
      let (result, w) := (w.record depth id call .completed).flow (Flow.settle id)
      (result.map fun _ => Flow.advance w.scene id call.successor, w)
  | .error fault =>
      match fault, call.successor with
      | .exhausted _, .loop _ after => (.ok after, w.record depth id call .exhausted)
      | fault, _ => (.error fault, w.record depth id call .failed)

/-- Visits a call, whether or not its inputs can be ingested. -/
def visit (ctx : Context) (run : Runner) (depth : Nat) (id : CallId) (w : Walk) :
    Fueled (Option CallId) Walk :=
  match w.flow (Flow.ingestAll (w.scene.frame.wiring.inputSlots id)) with
  | (.error fault, w) => some (.error fault, w)
  | (.ok (), w) =>
      let w := { w with log := w.log.visit id }
      match Assoc.find? w.scene.frame.calls id with
      | none => some (.error (.graph (.callNotFound w.scene.frame.id id)), w)
      | some call =>
          let a := ⟨call, Assoc.find? w.handles id, Assoc.find? w.bodies id, w.log⟩
          match ctx.execute run depth a with
          | none => none
          | some (result, a) => some ((w.keep id a).afterCall depth id call result)

/-- Runs an instance: seeds variables, walks, and moves results to the boundary if there is one. -/
def around (walk : Option CallId → Walk → Fueled Unit Walk) (w : Walk) : Fueled Unit Walk :=
  match w.flow Flow.seed with
  | (.error fault, w) => some (.error fault, w)
  | (.ok (), w) =>
      match walk w.scene.frame.start w with
      | none => none
      | some (.error fault, w) => some (.error fault, w)
      | some (.ok (), w) =>
          match w.scene.boundary with
          | none => some (.ok (), w)
          | some _ => some (w.flow Flow.finish)

/-- The walk of an instance that has not begun. -/
def begin (inst : Instance) (boundary : Option Terminals) (log : Log) : Walk :=
  { scene := ⟨inst.frame, boundary⟩, handles := inst.handles, bodies := inst.bodies, log }

/-- The instance that a walk leaves. -/
def toInstance (w : Walk) : Instance := .mk w.scene.frame w.handles w.bodies

/-- Runs bodies by a given way to walk at each depth. -/
def runner (walk : Nat → Option CallId → Walk → Fueled Unit Walk) : Runner :=
  fun depth body ts log =>
    match around (walk depth) (begin body (some ts) log) with
    | none => none
    | some (result, w) => some (result, ⟨w.toInstance, w.scene.boundary.getD ts, w.log⟩)

/-- Walks from a call until control ends or a visit fails. -/
def steps (ctx : Context) : (fuel depth : Nat) → Option CallId → Walk → Fueled Unit Walk
  | _, _, none, w => some (.ok (), w)
  | 0, _, some _, _ => none
  | fuel + 1, depth, some id, w =>
      match visit ctx (runner (steps ctx fuel)) depth id w with
      | none => none
      | some (.error fault, w) => some (.error fault, w)
      | some (.ok following, w) => steps ctx fuel depth following w

/-- Runs an instance with some fuel. -/
def run (ctx : Context) (fuel depth : Nat) (w : Walk) : Fueled Unit Walk :=
  around (steps ctx fuel depth) w

end Walk

end CallFlow
