import CallFlow.Proofs.Invariants
import Mathlib.Logic.Relation

/-!
# The stages of an execution

An execution of a target goes from stage to stage: it opens with the call of a function or the run
of a composition (`Engine.Opens`), and from there every run and every call leads to the next
stages (`Stage.Leads`), down into the bodies of calls.  The stages that an execution passes
(`Engine.Passes`) are those of all depths, and there are such stages also of executions that never
end.  One that ends was refused before it opened, or has left what the first call or run has left
(`Engine.Ends`).

Two kinds of invariant hold at every stage that is passed: those of terminals
(`Stage.all_of_passes`), and that all is as the graph declares it (`Stage.grounded_of_passes`).
-/

namespace CallFlow

/-- A stage of an execution, with the number of bodies around it. -/
inductive Stage where
  /-- A run of a composition that is about to begin. -/
  | start (depth : Nat) (w : Walk)
  /-- A run between two visits, with the result of what came before: where control goes next, or why
  the run ends. -/
  | between (depth : Nat) (r : Except RunFault (Option CallId)) (w : Walk)
  /-- A run of a body that has moved its results out, or has failed to. -/
  | ended (depth : Nat) (r : Except RunFault Unit) (w : Walk)
  /-- A call whose inputs are ingested. -/
  | call (depth : Nat) (a : Active)
  /-- A call that was executed, and the result. -/
  | left (depth : Nat) (r : Except RunFault Unit) (a : Active)

namespace Stage

/-- The ways in which a stage leads to others. -/
inductive Leads (ctx : Context) : Stage → Stage → Prop where
  | seeded {depth : Nat} {w w' : Walk} {r : Except RunFault Unit}
      (flow : w.flow Flow.seed = (r, w')) :
      Leads ctx (.start depth w) (.between depth (r.map fun _ => w'.scene.frame.start) w')
  | visited {fuel depth : Nat} {id : CallId} {w w' : Walk} {r : Except RunFault (Option CallId)}
      (visit : Walk.visit ctx (Walk.runner (Walk.steps ctx fuel)) depth id w = some (r, w')) :
      Leads ctx (.between depth (.ok (some id)) w) (.between depth r w')
  | finished {depth : Nat} {w w' : Walk} {r : Except RunFault Unit}
      (boundary : w.scene.boundary ≠ none)
      (flow : w.flow Flow.finish = (r, w')) :
      Leads ctx (.between depth (.ok none) w) (.ended depth r w')
  | entered {depth : Nat} {id : CallId} {w w' : Walk} {call : AppliedCall}
      (flow : w.flow (Flow.ingestAll (w.scene.frame.wiring.inputSlots id)) = (.ok (), w'))
      (found : Assoc.find? w'.scene.frame.calls id = some call) :
      Leads ctx (.between depth (.ok (some id)) w) (.call depth
        ⟨call, Assoc.find? w'.handles id, Assoc.find? w'.bodies id, w'.log.visit id⟩)
  | executed {fuel depth : Nat} {a a' : Active} {r : Except RunFault Unit}
      (execute : ctx.execute (Walk.runner (Walk.steps ctx fuel)) depth a = some (r, a')) :
      Leads ctx (.call depth a) (.left depth r a')
  | nested {depth : Nat} {a : Active} {d : Description} {id : CompositionId} {ts : Terminals}
      {body : Instance} (function : ctx.graph.function a.call.function = .ok d)
      (hasBody : d.body = some id)
      (prepared : a.call.terminals.prepare d a.call.site = (.ok (), ts))
      (setUp : ctx.bodyOf id a.body = .ok body) :
      Leads ctx (.call depth a)
        (.start (depth + 1) (Walk.begin body.reset (some ts.resetOutputs) a.log))

end Stage

namespace Engine

/-- The function that a target executes: the function itself, or the one whose body the composition
is. -/
def functionOf? (e : Engine) : RunTarget → Option FunctionId
  | .function id => some id
  | .composition id =>
      match e.context.graph.composition id with
      | .ok c => c.represents
      | .error _ => none

theorem eq_ok_of_escaped {α : Type} {e : Engine} {r : Except RunFault α} {a : α}
    (h : e.escaped r = .ok a) : r = .ok a := by
  unfold escaped at h
  split at h
  · exact absurd h (by simp)
  · exact h

/-- The stages with which the execution of a target opens. -/
inductive Opens (e : Engine) (target : RunTarget) (inputs : List (String × Value)) :
    Stage → Prop where
  | function {id : FunctionId} {d : Description} {ts : Terminals}
      (target : e.functionOf? target = some id)
      (function : e.context.graph.function id = .ok d)
      (bind : bindInputs d (.ofDescription d (.entry id) e.context.checked) inputs = .ok ts) :
      Opens e _ inputs
        (.call 0 ⟨{ AppliedCall.ofDescription d (.entry id) .stop none e.context.checked with
        terminals := ts }, none, none, Log.start e.tracing⟩)
  | standalone {id : CompositionId} {c : Composition} {f f' : Frame}
      (target : target = .composition id)
      (composition : e.context.graph.composition id = .ok c) (represents : c.represents = none)
      (setUp : Frame.ofGraph e.context.graph id e.context.checked = .ok f)
      (bind : bindVariables f.reset inputs = .ok f') :
      Opens e _ inputs (.start 0 (Walk.begin (.mk f' [] []) none (Log.start e.tracing)))

/-- The ways in which the execution of a target is refused before it opens. -/
inductive Refuses (e : Engine) (target : RunTarget) (inputs : List (String × Value)) :
    RunFault → Prop where
  | noComposition {id : CompositionId} {fault : GraphFault} (target : target = .composition id)
      (composition : e.context.graph.composition id = .error fault) :
        Refuses e _ inputs (.ofGraph fault)
  | noFunction {id : FunctionId} {fault : GraphFault} (target : e.functionOf? target = some id)
      (function : e.context.graph.function id = .error fault) : Refuses e _ inputs (.ofGraph fault)
  | inputs {id : FunctionId} {d : Description} {fault : RunFault}
      (target : e.functionOf? target = some id)
      (function : e.context.graph.function id = .ok d)
      (bind : bindInputs d (.ofDescription d (.entry id) e.context.checked) inputs = .error fault) :
      Refuses e _ inputs fault
  | frame {id : CompositionId} {c : Composition} {fault : RunFault}
      (target : target = .composition id)
      (composition : e.context.graph.composition id = .ok c) (represents : c.represents = none)
      (setUp : Frame.ofGraph e.context.graph id e.context.checked = .error fault) :
        Refuses e _ inputs fault
  | boundVariables {id : CompositionId} {c : Composition} {f : Frame} {fault : RunFault}
      (target : target = .composition id) (composition : e.context.graph.composition id = .ok c)
      (represents : c.represents = none)
      (setUp : Frame.ofGraph e.context.graph id e.context.checked = .ok f)
      (bind : bindVariables f.reset inputs = .error fault) : Refuses e _ inputs fault

/-- The ways in which the execution of a target ends: it is refused, or the call or the run with
which it opens has come to an end. -/
inductive Ends (e : Engine) (fuel : Nat) (target : RunTarget) (inputs : List (String × Value)) :
    Except RunFault (List (String × Value)) → Engine → Prop where
  | refused {fault : RunFault} (refuses : e.Refuses target inputs fault) :
      Ends e fuel target inputs (.error fault) e
  | called {a a' : Active} {result : Except RunFault Unit}
      (opens : e.Opens target inputs (.call 0 a))
      (execute : e.context.execute (Walk.runner (Walk.steps e.context fuel)) 0 a =
        some (result, a')) :
      Ends e fuel target inputs (result.map fun _ => outputsOf a'.call.terminals)
        { e with log := a'.log, last := some (.entry a'.call a'.body) }
  | ran {w w' : Walk} {result : Except RunFault Unit} (opens : e.Opens target inputs (.start 0 w))
      (run : Walk.run e.context fuel 0 w = some (result, w')) :
      Ends e fuel target inputs (result.map fun _ => Assoc.mapValues shown w'.scene.frame.vars)
        { e with log := w'.log, last := some (.standalone w'.toInstance) }

/-- What keeps inputs from being bound to a function: one of which it knows nothing, or a value that
its terminal does not take. -/
theorem bindInputs_eq_error {d : Description} {ts : Terminals} {inputs : List (String × Value)}
    {fault : RunFault} (h : bindInputs d ts inputs = .error fault) :
    (∃ name, fault = .unknownInput name (.function d.name)) ∨ fault.OfValues := by
  induction inputs generalizing ts with
  | nil => exact absurd h (by simp [bindInputs])
  | cons input rest ih =>
      obtain ⟨name, v⟩ := input
      rw [bindInputs] at h
      split at h
      · exact .inl ⟨name, (Except.error.inj h).symm⟩
      · rename_i fault' hwrite
        obtain rfl := Except.error.inj h
        exact .inr (Terminals.ofValues_writeInput? hwrite)
      · exact ih h

/-- What keeps inputs from being bound to a composition: one of which it knows nothing, or a value
that its variable does not take. -/
theorem bindVariables_eq_error {f : Frame} {inputs : List (String × Value)} {fault : RunFault}
    (h : bindVariables f inputs = .error fault) :
    (∃ name, fault = .unknownInput name (.composition f.name)) ∨ fault.OfValues := by
  induction inputs generalizing f with
  | nil => exact absurd h (by simp [bindVariables])
  | cons input rest ih =>
      obtain ⟨name, v⟩ := input
      rw [bindVariables] at h
      split at h
      · exact .inl ⟨name, (Except.error.inj h).symm⟩
      · split at h
        · rename_i fault' hwrite
          obtain rfl := Except.error.inj h
          exact .inr (Terminal.ofValues_write hwrite)
        · -- the frame with the variable written has the same name
          have hrest := ih h
          exact hrest

section Ends

variable {e e' : Engine} {fuel : Nat} {target : RunTarget} {inputs : List (String × Value)}
  {r : Except RunFault (List (String × Value))}

/-- What is refused does not open. -/
theorem Refuses.not_opens {fault : RunFault} {stage : Stage} (h : e.Refuses target inputs fault) :
    ¬ e.Opens target inputs stage := by
  intro hopens
  cases hopens with
  | @function id d ts htarget hd hbind =>
      cases h with
      | noComposition heq hc => exact absurd htarget (by simp [heq, functionOf?, hc])
      | noFunction htarget' hmissing =>
          obtain rfl := Option.some.inj (htarget.symm.trans htarget')
          exact absurd (hd.symm.trans hmissing) (by simp)
      | inputs htarget' hd' hbind' =>
          obtain rfl := Option.some.inj (htarget.symm.trans htarget')
          obtain rfl := Except.ok.inj (hd.symm.trans hd')
          exact absurd (hbind.symm.trans hbind') (by simp)
      | frame heq hc hnone _ | boundVariables heq hc hnone _ _ =>
          exact absurd htarget (by simp [heq, functionOf?, hc, hnone])
  | @standalone id c f f' heq hc hnone hf hbind =>
      have hid : ∀ {id'}, target = .composition id' → id = id' := fun heq' =>
        RunTarget.composition.inj (heq.symm.trans heq')
      cases h with
      | noComposition heq' hmissing =>
          obtain rfl := hid heq'
          exact absurd (hc.symm.trans hmissing) (by simp)
      | noFunction htarget _ | inputs htarget _ _ =>
          exact absurd htarget (by simp [heq, functionOf?, hc, hnone])
      | frame heq' _ _ hf' =>
          obtain rfl := hid heq'
          exact absurd (hf.symm.trans hf') (by simp)
      | boundVariables heq' _ _ hf' hbind' =>
          obtain rfl := hid heq'
          obtain rfl := Except.ok.inj (hf.symm.trans hf')
          exact absurd (hbind.symm.trans hbind') (by simp)

theorem ends_of_runFunction {id : FunctionId} (htarget : e.functionOf? target = some id)
    (hlog : e.log = Log.start e.tracing) (h : e.runFunction fuel id inputs = some (r, e')) :
    e.Ends fuel target inputs r e' := by
  unfold runFunction at h
  split at h
  · rename_i fault hmissing
    obtain ⟨rfl, rfl⟩ := Prod.mk.inj (Option.some.inj h)
    exact .refused (.noFunction htarget hmissing)
  · rename_i d hd
    simp only [] at h
    split at h
    · rename_i fault hbind
      obtain ⟨rfl, rfl⟩ := Prod.mk.inj (Option.some.inj h)
      exact .refused (.inputs htarget hd hbind)
    · rename_i ts hbind
      split at h
      · exact absurd h (by simp)
      · rename_i result a hexecute
        obtain ⟨rfl, rfl⟩ := Prod.mk.inj (Option.some.inj h)
        rw [hlog] at hexecute
        exact .called (.function htarget hd hbind) hexecute

theorem ends_of_runStandalone {id : CompositionId} {c : Composition}
    (hc : e.context.graph.composition id = .ok c) (hnone : c.represents = none)
    (hlog : e.log = Log.start e.tracing) (h : e.runStandalone fuel id inputs = some (r, e')) :
    e.Ends fuel (.composition id) inputs r e' := by
  unfold runStandalone at h
  split at h
  · rename_i fault hf
    obtain ⟨rfl, rfl⟩ := Prod.mk.inj (Option.some.inj h)
    exact .refused (.frame rfl hc hnone hf)
  · rename_i f hf
    split at h
    · rename_i fault hbind
      obtain ⟨rfl, rfl⟩ := Prod.mk.inj (Option.some.inj h)
      exact .refused (.boundVariables rfl hc hnone hf hbind)
    · rename_i f' hbind
      split at h
      · exact absurd h (by simp)
      · rename_i result w hrun
        obtain ⟨rfl, rfl⟩ := Prod.mk.inj (Option.some.inj h)
        rw [hlog] at hrun
        exact .ran (.standalone rfl hc hnone hf hbind) hrun

/-- **How executions end.** -/
theorem ends_of_runTarget (hlog : e.log = Log.start e.tracing)
    (h : e.runTarget fuel target inputs = some (r, e')) : e.Ends fuel target inputs r e' := by
  cases target with
  | function id => exact ends_of_runFunction rfl hlog h
  | composition id =>
      cases hc : e.context.graph.composition id with
      | error fault =>
          simp only [runTarget, hc] at h
          obtain ⟨rfl, rfl⟩ := Prod.mk.inj (Option.some.inj h)
          exact .refused (.noComposition rfl hc)
      | ok c =>
          simp only [runTarget, hc] at h
          cases hrepresents : c.represents with
          | none =>
              simp only [hrepresents] at h
              exact ends_of_runStandalone hc hrepresents hlog h
          | some function =>
              simp only [hrepresents] at h
              exact ends_of_runFunction (by simp [functionOf?, hc, hrepresents]) hlog h

/-- The log begins anew, and in the end an exhaustion that escapes is a failure. -/
theorem ends_of_executeWithin (h : e.executeWithin fuel target inputs = some (r, e')) :
    ∃ r₁, ({ e with log := Log.start e.tracing } : Engine).Ends fuel target inputs r₁ e' ∧
      r = e'.escaped r₁ := by
  unfold executeWithin at h
  split at h
  · exact absurd h (by simp)
  · rename_i r₁ e₁ hran
    obtain ⟨rfl, rfl⟩ := Prod.mk.inj (Option.some.inj h)
    exact ⟨r₁, ends_of_runTarget rfl hran, rfl⟩

/-- An execution that succeeds was not refused, and what it has opened with has succeeded. -/
theorem succeeds_of_executeWithin {outputs : List (String × Value)}
    (h : e.executeWithin fuel target inputs = some (.ok outputs, e')) :
    (∃ a a', ({ e with log := Log.start e.tracing } : Engine).Opens target inputs (.call 0 a) ∧
      e.context.execute (Walk.runner (Walk.steps e.context fuel)) 0 a = some (.ok (), a') ∧
      outputs = outputsOf a'.call.terminals ∧
      e' = { e with log := a'.log, last := some (.entry a'.call a'.body) }) ∨
    ∃ w w', ({ e with log := Log.start e.tracing } : Engine).Opens target inputs (.start 0 w) ∧
      Walk.run e.context fuel 0 w = some (.ok (), w') ∧
      outputs = Assoc.mapValues shown w'.scene.frame.vars ∧
      e' = { e with log := w'.log, last := some (.standalone w'.toInstance) } := by
  obtain ⟨r₁, hends, hr⟩ := ends_of_executeWithin h
  obtain rfl := eq_ok_of_escaped hr.symm
  generalize hresult : Except.ok outputs = r₁ at hends
  cases hends with
  | refused _ => exact absurd hresult (by simp)
  | called hopens hexecute =>
      obtain ⟨_, rfl, houtputs⟩ := map_eq_ok hresult.symm
      exact .inl ⟨_, _, hopens, hexecute, houtputs, rfl⟩
  | ran hopens hrun =>
      obtain ⟨_, rfl, houtputs⟩ := map_eq_ok hresult.symm
      exact .inr ⟨_, _, hopens, hrun, houtputs, rfl⟩

end Ends

/-- **The stages that the execution of a target passes**, at every depth. -/
def Passes (e : Engine) (target : RunTarget) (inputs : List (String × Value))
    (stage : Stage) : Prop :=
  ∃ first, e.Opens target inputs first ∧ Relation.ReflTransGen (Stage.Leads e.context) first stage

variable {e : Engine} {target : RunTarget} {inputs : List (String × Value)} {stage stage' : Stage}

theorem Passes.leads (h : e.Passes target inputs stage)
    (hleads : Stage.Leads e.context stage stage') :
    e.Passes target inputs stage' := by
  obtain ⟨first, hopens, hsteps⟩ := h
  exact ⟨first, hopens, hsteps.tail hleads⟩

/-- What holds where an execution opens, and wherever a stage leads at which it holds, holds at
every stage that is passed. -/
theorem Passes.induction {Q : Stage → Prop}
    (hopens : ∀ {stage}, e.Opens target inputs stage → Q stage)
    (hleads : ∀ {stage stage'}, Q stage → Stage.Leads e.context stage stage' → Q stage')
    (h : e.Passes target inputs stage) : Q stage := by
  obtain ⟨first, hfirst, hsteps⟩ := h
  induction hsteps with
  | refl => exact hopens hfirst
  | tail _ hstep ih => exact hleads ih hstep

end Engine

/-! ## Invariants of terminals -/

namespace Stage

/-- All terminals have the property at the stage, those of bodies inside of it included. -/
def All (P : Terminal → Prop) : Stage → Prop
  | .start _ w | .between _ _ w | .ended _ _ w => w.All P
  | .call _ a | .left _ _ a => a.All P

variable {P : Terminal → Prop}

theorem all_of_opens {e : Engine} (hP : Terminal.Invariant e.context.checked P) {target : RunTarget}
    {inputs : List (String × Value)} {stage : Stage} (h : e.Opens target inputs stage) :
    stage.All P := by
  cases h with
  | function _ _ hbind =>
      exact ⟨(Terminals.all_ofDescription hP _ _).bindInputs hP hbind, fun body hbody =>
        absurd hbody (by simp)⟩
  | standalone _ _ _ hf hbind =>
      have hframe := ((Frame.all_ofGraph hP hf).reset hP).bindVariables hP hbind
      have hinst : Instance.All P (.mk _ [] []) := .mk hframe fun id body hbody =>
        absurd hbody (by simp)
      exact hinst.begin (fun ts hts => absurd hts (by simp)) _

/-- **Every step of an execution keeps an invariant of terminals.** -/
theorem All.leads {ctx : Context} (hP : Terminal.Invariant ctx.checked P) {stage stage' : Stage}
    (h : stage.All P) (hleads : Leads ctx stage stage') : stage'.All P := by
  cases hleads with
  | seeded hflow => exact Walk.All.flow h (Flow.keeps_seed hP.stable) hflow
  | visited hvisit => exact Walk.all_visit hP (Walk.keeps_runner hP _) h hvisit
  | finished _ hflow => exact Walk.All.flow h (Flow.keeps_finish hP.stable) hflow
  | entered hflow hfound =>
      have hw := Walk.All.flow h (Flow.keeps_ingestAll hP.stable _) hflow
      exact ⟨hw.scene.frame.calls _ _ hfound, hw.bodies _⟩
  | executed hexecute => exact Context.all_execute hP (Walk.keeps_runner hP _) h hexecute
  | @nested _ a d _ ts _ _ _ hprepare hbody =>
      have hprepared := Terminals.All.prepare hP (Active.All.terminals h) d a.call.site
      rw [hprepare] at hprepared
      refine ((Context.all_bodyOf hP (Active.All.body h) hbody).reset hP).begin (fun ts' hts' => ?_)
        _
      obtain rfl := Option.some.inj hts'
      exact Terminals.All.resetOutputs hP hprepared

/-- **An invariant of terminals holds at every stage that is passed.** -/
theorem all_of_passes {e : Engine} (hP : Terminal.Invariant e.context.checked P)
    {target : RunTarget}
    {inputs : List (String × Value)} {stage : Stage} (h : e.Passes target inputs stage) :
    stage.All P :=
  h.induction (all_of_opens hP) (All.leads hP)

end Stage

/-! ## What the graph declares -/

/-- The call is one of a function of the graph, and has the terminals that a description there
declares. -/
def AppliedCall.Declared (ctx : Context) (call : AppliedCall) : Prop :=
  ∃ key d, ctx.graph.function key = .ok d ∧ call.function = d.id ∧
    call.terminals.reset = .ofDescription d call.site ctx.checked

/-- The boundary is one for the composition: there is none if the composition is no function's body,
and else it is that of a call of a function that has the composition as its body. -/
def Context.Serves (ctx : Context) (id : CompositionId) : Option Terminals → Prop
  | none => ∃ c, ctx.graph.composition id = .ok c ∧ c.represents = none
  | some ts => ∃ (call : AppliedCall) (d : Description), call.Declared ctx ∧
      call.terminals.reset = ts.reset ∧ ctx.graph.function call.function = .ok d ∧ d.body = some id

/-- The walk is one of a composition of the graph, by itself or for a call of the function whose
body it is, and the bodies that it keeps have arisen from runs of their own. -/
structure Walk.Grounded (ctx : Context) (w : Walk) : Prop where
  begins : ∃ id inputs w₀, Walk.Begins ctx id inputs w₀ ∧ w₀.scene.Keeps w.scene ∧
    ctx.Serves id w.scene.boundary
  nests : w.toInstance.Nests ctx

/-- The call is declared, and the body that is kept of it has arisen from runs of its own. -/
structure Active.Grounded (ctx : Context) (a : Active) : Prop where
  declared : a.call.Declared ctx
  arises : ∀ d id body, ctx.graph.function a.call.function = .ok d → d.body = some id →
    a.body = some body → body.Arises ctx id

theorem AppliedCall.function_of_reset_eq {call call' : AppliedCall} (h : call'.reset = call.reset) :
    call'.function = call.function := by
  have hfunction : call'.reset.function = call.reset.function := by rw [h]
  exact hfunction

theorem AppliedCall.Declared.of_reset_eq {ctx : Context} {call call' : AppliedCall}
    (h : call.Declared ctx) (hreset : call'.reset = call.reset) : call'.Declared ctx := by
  obtain ⟨key, d, hd, hfunction, hterminals⟩ := h
  have hsite : call'.reset.site = call.reset.site := by rw [hreset]
  have hleft : call'.terminals.reset = call.terminals.reset := congrArg AppliedCall.terminals hreset
  refine ⟨key, d, hd, (AppliedCall.function_of_reset_eq hreset).trans hfunction, ?_⟩
  rw [hleft, hterminals]
  exact congrArg (Terminals.ofDescription d · ctx.checked) hsite.symm

theorem Context.Serves.of_reset_eq {ctx : Context} {id : CompositionId} {ts ts' : Option Terminals}
    (h : ctx.Serves id ts) (hreset : ts'.map Terminals.reset = ts.map Terminals.reset) :
    ctx.Serves id ts' := by
  cases ts with
  | none =>
      obtain rfl := Option.map_eq_none_iff.1 hreset
      exact h
  | some ts =>
      obtain ⟨ts', rfl, hts'⟩ := Option.map_eq_some_iff.1 hreset
      obtain ⟨call, d, hdeclared, hts, hd, hid⟩ := h
      exact ⟨call, d, hdeclared, hts.trans hts'.symm, hd, hid⟩

/-- Between two runs of bodies the same is declared, so that what is declared at one stage is
declared at the next. -/
theorem Walk.Grounded.withScene {ctx : Context} {w w' : Walk} (h : w.Grounded ctx)
    (hkeeps : w.scene.Keeps w'.scene) (hnests : w'.toInstance.Nests ctx) : w'.Grounded ctx := by
  obtain ⟨⟨id, inputs, w₀, hbegins, hbefore, hserves⟩, -⟩ := h
  exact ⟨⟨id, inputs, w₀, hbegins, hbefore.trans hkeeps, hserves.of_reset_eq hkeeps.boundary⟩,
    hnests⟩

theorem Walk.Grounded.closed {ctx : Context} {w : Walk} (h : w.Grounded ctx) :
    w.scene.frame.Closed := by
  obtain ⟨⟨id, inputs, w₀, hbegins, hkeeps, -⟩, -⟩ := h
  exact hkeeps.closed hbegins.closed

theorem Walk.Grounded.flow {ctx : Context} {w w' : Walk} (h : w.Grounded ctx) {α : Type}
    {step : Flow α} {r : Except RunFault α} (hkeeps : w.scene.Keeps (step.run w.scene).2)
    (hflow : w.flow step = (r, w')) : w'.Grounded ctx := by
  obtain ⟨-, rfl⟩ := Prod.mk.inj hflow
  exact h.withScene hkeeps (Walk.nests_withScene h.nests h.closed hkeeps rfl)

/-- The calls of a grounded walk are declared. -/
theorem Walk.Grounded.declared {ctx : Context} {w : Walk} (h : w.Grounded ctx) {id : CallId}
    {call : AppliedCall} (hcall : Assoc.find? w.scene.frame.calls id = some call) :
    call.Declared ctx := by
  obtain ⟨⟨compositionId, inputs, w₀, hbegins, hkeeps, -⟩, -⟩ := h
  obtain ⟨f, hf, hbind⟩ := hbegins.exists_frame
  have hframe : w.scene.frame.reset = f := by
    rw [hkeeps.frame hbegins.closed, Frame.reset_bindVariables hbind, Frame.reset_of_ofGraph hf]
  have hfind : Assoc.find? f.calls id = some call.reset := by
    rw [← hframe]
    simp [Frame.reset, hcall]
  obtain ⟨c, used, decl, d, -, -, -, -, -, hd, hreset⟩ := Frame.exists_description hf hfind
  have hdeclared : call.reset.Declared ctx := by
    rw [hreset]
    exact ⟨_, d, hd, rfl, Terminals.reset_ofDescription d _ _⟩
  exact hdeclared.of_reset_eq (AppliedCall.reset_reset call).symm

namespace Stage

/-- All at the stage is as the graph declares it. -/
def Grounded (ctx : Context) : Stage → Prop
  | .start _ w => w.Grounded ctx ∧ ∃ id inputs, w.Begins ctx id inputs
  | .between _ _ w | .ended _ _ w => w.Grounded ctx
  | .call _ a | .left _ _ a => a.Grounded ctx

theorem grounded_of_opens {e : Engine} {target : RunTarget} {inputs : List (String × Value)}
    {stage : Stage} (h : e.Opens target inputs stage) : stage.Grounded e.context := by
  cases h with
  | @function id d ts _ hd hbind =>
      refine ⟨⟨id, d, hd, rfl, ?_⟩, fun d id body _ _ hbody => absurd hbody (by simp)⟩
      change ts.reset = _
      rw [Engine.reset_bindInputs hbind, Terminals.reset_ofDescription]
      rfl
  | standalone _ hc hrepresents hf hbind =>
      have hbegins : Walk.Begins e.context _ inputs (Walk.begin _ none (Log.start e.tracing)) :=
        .standalone hf hbind
      exact ⟨⟨⟨_, _, _, hbegins, .refl _, _, hc, hrepresents⟩, hbegins.nests⟩, _, _, hbegins⟩

theorem nests_visit {ctx : Context} {fuel depth : Nat} {id : CallId} {w w' : Walk}
    {r : Except RunFault (Option CallId)} (h : w.Grounded ctx)
    (hvisit : Walk.visit ctx (Walk.runner (Walk.steps ctx fuel)) depth id w = some (r, w')) :
    w'.toInstance.Nests ctx := by
  rcases Walk.visit_cases hvisit with ⟨fault, -, hrefuses⟩ | ⟨v, -, hexecutes⟩
  · refine Walk.nests_withScene h.nests h.closed hrefuses.evolves.keeps ?_
    cases hrefuses <;> rfl
  · exact hexecutes.nests h.closed h.nests

/-- **Every step of an execution keeps to what the graph declares.** -/
theorem Grounded.leads {ctx : Context} {stage stage' : Stage} (h : stage.Grounded ctx)
    (hleads : Leads ctx stage stage') : stage'.Grounded ctx := by
  cases hleads with
  | @seeded _ w _ _ hflow => exact h.1.flow (Flow.evolves_seed w.scene).keeps hflow
  | visited hvisit =>
      exact Walk.Grounded.withScene h (Walk.keeps_visit (Walk.faithful_runner ctx _) hvisit)
        (nests_visit h hvisit)
  | @finished _ w _ _ _ hflow =>
      exact Walk.Grounded.flow h (Flow.evolves_finish w.scene).keeps hflow
  | @entered _ id w w' call hflow hfound =>
      have hw : w'.Grounded ctx :=
        Walk.Grounded.flow h (Flow.evolves_ingestAll w.scene _).keeps hflow
      exact ⟨hw.declared hfound, fun d bodyId body hd hid hbody =>
        hw.nests id d bodyId body ⟨call, hfound, hd⟩ hid hbody⟩
  | @executed fuel _ a a' _ hexecute =>
      have hreset := Context.reset_execute (Walk.faithful_runner ctx fuel) hexecute
      refine ⟨(Active.Grounded.declared h).of_reset_eq hreset, fun d id body hd hid hbody => ?_⟩
      rw [AppliedCall.function_of_reset_eq hreset] at hd
      exact Context.arises_execute hexecute hd hid
        (fun hkept => Active.Grounded.arises h d id _ hd hid hkept)
        hbody
  | @nested _ a d id ts body hd hid hprepare hset =>
      have harises : body.Arises ctx id :=
        Context.arises_bodyOf (fun hkept => Active.Grounded.arises h d id _ hd hid hkept) hset
      have hbegins : Walk.Begins ctx id [] (Walk.begin body.reset (some ts.resetOutputs) a.log) :=
        .body harises
      have hreset := a.call.terminals.reset_prepare d a.call.site
      rw [hprepare] at hreset
      have hserves : ctx.Serves id (some ts.resetOutputs) :=
        ⟨a.call, d, Active.Grounded.declared h, by simpa using hreset.symm, hd, hid⟩
      exact ⟨⟨⟨id, [], _, hbegins, .refl _, hserves⟩, hbegins.nests⟩, id, [], hbegins⟩

/-- **At every stage that is passed, all is as the graph declares it.** -/
theorem grounded_of_passes {e : Engine} {target : RunTarget} {inputs : List (String × Value)}
    {stage : Stage} (h : e.Passes target inputs stage) : stage.Grounded e.context :=
  h.induction grounded_of_opens Grounded.leads

/-- All calls at the stage are declared, and the boundary of a run is that of a declared call. -/
def Declared (ctx : Context) : Stage → Prop
  | .start _ w | .between _ _ w | .ended _ _ w =>
      (∀ id call, Assoc.find? w.scene.frame.calls id = some call → call.Declared ctx) ∧
        ∀ ts, w.scene.boundary = some ts →
          ∃ call : AppliedCall, call.Declared ctx ∧ ts.reset = call.terminals.reset
  | .call _ a | .left _ _ a => a.call.Declared ctx

theorem declared_of_grounded {ctx : Context} {w : Walk} (h : w.Grounded ctx) :
    (Stage.start 0 w).Declared ctx := by
  refine ⟨fun id call hcall => h.declared hcall, fun ts hts => ?_⟩
  obtain ⟨⟨id, inputs, w₀, -, -, hserves⟩, -⟩ := h
  rw [hts] at hserves
  obtain ⟨call, d, hdeclared, hreset, -, -⟩ := hserves
  exact ⟨call, hdeclared, hreset.symm⟩

/-- **The terminals of every stage that is passed are those that the graph declares.** -/
theorem declared_of_passes {e : Engine} {target : RunTarget} {inputs : List (String × Value)}
    {stage : Stage} (h : e.Passes target inputs stage) : stage.Declared e.context := by
  have hgrounded := grounded_of_passes h
  cases stage with
  | start depth w => exact declared_of_grounded hgrounded.1
  | between depth r w => exact declared_of_grounded hgrounded
  | ended depth r w => exact declared_of_grounded hgrounded
  | call depth a => exact Active.Grounded.declared hgrounded
  | left depth r a => exact Active.Grounded.declared hgrounded

end Stage

end CallFlow
