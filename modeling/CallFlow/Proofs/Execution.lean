import CallFlow.Instance.Walk
import CallFlow.Proofs.Completion

/-!
# Executing one call

Whatever happens while a call executes, its declared parts stay as they are
(`Context.reset_execute`), and if it completes then all its outputs are written
(`Context.published_execute`).  Both are stated for any way of running bodies that has the same two
properties (`Runner.Faithful`); the walk has them, which `Proofs/Walk` shows.
-/

namespace CallFlow

/-! ## Terminals -/

namespace Terminals

/-- All outputs are written. -/
def Published (ts : Terminals) : Prop :=
  ∀ port t, port.isOutput = true → ts.get? port = some t → t.isWritten = true

theorem Published.exists_peek {ts : Terminals} (h : ts.Published) {port : Port}
    (hport : port.isOutput = true) (hget : (ts.get? port).isSome = true) :
    ∃ v, (ts.get? port).bind Terminal.peek = some v := by
  obtain ⟨t, ht⟩ := Option.isSome_iff_exists.1 hget
  refine Option.isSome_iff_exists.1 ?_
  rw [ht, Option.bind_some, Terminal.isSome_peek]
  exact h port t hport ht

theorem published_consumeInputs {ts : Terminals} (h : ts.Published) :
    ts.consumeInputs.Published := by
  intro port t hport ht
  cases port with
  | param _ | receiver => exact absurd hport (by simp [Port.isOutput])
  | output => exact h .output t rfl ht
  | selfOutput => exact h .selfOutput t rfl ht

theorem reset_assemble (ts : Terminals) (d : Description) (site : Site) :
    (ts.assemble d site).2.reset = ts.reset := by
  unfold assemble
  split
  · rfl
  · exact ts.reset_consumeInputs

theorem reset_prepareOne {d : Description} {site : Site} {p : Param} {t t' : Terminal}
    (h : prepareOne d site p t = .ok t') : t'.reset = t.reset := by
  unfold prepareOne at h
  split at h
  · rw [Except.ok.inj h]
  · split at h
    · exact Terminal.reset_write h
    · exact absurd h (by simp)

theorem map_reset_prepareParams (d : Description) (site : Site) (ps : List Param)
    (ts : List Terminal) :
    (prepareParams d site ps ts).2.map Terminal.reset = ts.map Terminal.reset := by
  induction ps generalizing ts with
  | nil => cases ts <;> rfl
  | cons p ps ih =>
      cases ts with
      | nil => rfl
      | cons t ts =>
          rw [prepareParams]
          cases h : prepareOne d site p t with
          | error fault => rfl
          | ok t' => simp [reset_prepareOne h, ih]

theorem reset_prepare (ts : Terminals) (d : Description) (site : Site) :
    (ts.prepare d site).2.reset = ts.reset := by
  have hparams := map_reset_prepareParams d site d.params ts.params
  unfold prepare
  split
  · rename_i fault params h
    rw [h] at hparams
    simp [reset_eq, hparams]
  · rename_i params h
    rw [h] at hparams
    split
    · rename_i p t hd hr
      split
      · rename_i t' ht
        simp [reset_eq, hparams, hr, reset_prepareOne ht]
      · simp [reset_eq, hparams]
    · simp [reset_eq, hparams]

theorem reset_publish (ts : Terminals) (v : Value) (receiver : Option Value) :
    (ts.publish v receiver).2.reset = ts.reset := by
  unfold publish
  split
  · rfl
  · rename_i output houtput
    have ho := Terminal.reset_write houtput
    simp only []
    split
    · simp [reset_eq, ho]
    · rename_i t ht
      split
      · simp [reset_eq, ho]
      · rename_i t' ht'
        simp [reset_eq, ho, ht, Terminal.reset_write ht']

theorem published_publish {ts ts' : Terminals} {v : Value} {receiver : Option Value}
    (h : ts.publish v receiver = (.ok (), ts')) : ts'.Published := by
  unfold publish at h
  split at h
  · exact absurd h (by simp)
  · rename_i output houtput
    have ho := Terminal.isWritten_write houtput
    simp only [] at h
    split at h
    · rename_i hself
      obtain ⟨-, rfl⟩ := Prod.mk.inj h
      intro port t hport ht
      cases port with
      | param _ | receiver => exact absurd hport (by simp [Port.isOutput])
      | output =>
          obtain rfl := Option.some.inj ht
          exact ho
      | selfOutput => exact absurd (hself.symm.trans ht) (by simp)
    · split at h
      · exact absurd h (by simp)
      · rename_i t' ht'
        obtain ⟨-, rfl⟩ := Prod.mk.inj h
        intro port t hport ht
        cases port with
        | param _ | receiver => exact absurd hport (by simp [Port.isOutput])
        | output =>
            obtain rfl := Option.some.inj ht
            exact ho
        | selfOutput =>
            obtain rfl := Option.some.inj ht
            exact Terminal.isWritten_write ht'

end Terminals

/-! ## Implementations and bodies -/

/-- Bodies keep what is declared of the terminals that they run for, and write all outputs if they
succeed. -/
structure Runner.Faithful (run : Runner) : Prop where
  reset : ∀ {depth body ts log r ran}, run depth body ts log = some (r, ran) →
    ran.terminals.reset = ts.reset
  published : ∀ {depth body ts log ran}, run depth body ts log = some (.ok (), ran) →
    ran.terminals.Published

namespace Context

variable {ctx : Context}

/-- The ways in which an implementation is invoked: the arguments cannot be assembled; there is no
implementation; or it answers with a value, which is published, or with a fault. -/
inductive Invokes (ctx : Context) (d : Description) (a : Active) :
    Except RunFault Unit → Active → Prop where
  | unassembled {ts : Terminals} {fault : RunFault}
      (assembled : a.call.terminals.assemble d a.call.site = (.error fault, ts)) :
      Invokes ctx d a (.error fault) (a.withTerminals ts)
  | unbound {args : Arguments} {ts : Terminals} {handle : Option Callable} {fault : RunFault}
      (assembled : a.call.terminals.assemble d a.call.site = (.ok args, ts))
      (bound : ctx.bind d a.call.site a.handle args.receiver = (.error fault, handle)) :
      Invokes ctx d a (.error fault) { a.withTerminals ts with handle }
  | answered {args : Arguments} {ts ts' : Terminals} {f : Callable}
      {handle : Option Callable} {v : Value}
      {receiver : Option Value} {r : Except RunFault Unit}
      (assembled : a.call.terminals.assemble d a.call.site = (.ok args, ts))
      (bound : ctx.bind d a.call.site a.handle args.receiver = (.ok f, handle))
      (reply : Invocation.send ⟨args.positional, args.keyword, args.receiver⟩ f = ⟨.ok v, receiver⟩)
      (publish : ts.publish v receiver = (r, ts')) :
      Invokes ctx d a r { a.withTerminals ts' with handle }
  | exhausted {args : Arguments} {ts : Terminals} {f : Callable} {handle : Option Callable}
      (assembled : a.call.terminals.assemble d a.call.site = (.ok args, ts))
      (bound : ctx.bind d a.call.site a.handle args.receiver = (.ok f, handle))
      (reply : (Invocation.send ⟨args.positional, args.keyword, args.receiver⟩ f).result
        = .error .exhausted) :
      Invokes ctx d a (.error (.exhausted a.call.site)) { a.withTerminals ts with handle }
  | failed {args : Arguments} {ts : Terminals} {f : Callable} {handle : Option Callable}
      {fault : HostFault}
      (assembled : a.call.terminals.assemble d a.call.site = (.ok args, ts))
      (bound : ctx.bind d a.call.site a.handle args.receiver = (.ok f, handle))
      (reply : (Invocation.send ⟨args.positional, args.keyword, args.receiver⟩ f).result =
        .error fault)
      (signal : fault ≠ .exhausted) :
      Invokes ctx d a (.error (.implementationFailure a.call.site d.name fault.text args.text))
        { a.withTerminals ts with handle }

/-- **How an implementation is invoked.** -/
theorem invokes_of_invoke {d : Description} {a a' : Active} {r : Except RunFault Unit}
    (h : ctx.invoke d a = (r, a')) : ctx.Invokes d a r a' := by
  unfold invoke at h
  split at h
  · rename_i fault ts hassemble
    obtain ⟨rfl, rfl⟩ := Prod.mk.inj h
    exact .unassembled hassemble
  · rename_i args ts hassemble
    simp only [] at h
    split at h
    · rename_i fault hbind
      obtain ⟨rfl, rfl⟩ := Prod.mk.inj h
      exact .unbound hassemble (Prod.ext hbind rfl)
    · rename_i f hbind
      split at h
      · rename_i v hreply
        obtain ⟨rfl, rfl⟩ := Prod.mk.inj h
        exact .answered hassemble (Prod.ext hbind rfl) (by rw [← hreply]) rfl
      · rename_i hreply
        obtain ⟨rfl, rfl⟩ := Prod.mk.inj h
        exact .exhausted hassemble (Prod.ext hbind rfl) hreply
      · rename_i fault hne hreply
        obtain ⟨rfl, rfl⟩ := Prod.mk.inj h
        exact .failed hassemble (Prod.ext hbind rfl) hreply hne

/-- The ways in which a call executes: by its implementation, or by running its body; unless its
function is not found, its inputs cannot be prepared for the body, or the body cannot be set up. -/
inductive Performs (ctx : Context) (run : Runner) (depth : Nat) (a : Active) :
    Except RunFault Unit → Active → Prop where
  | unknown {fault : GraphFault} (function : ctx.graph.function a.call.function = .error fault) :
      Performs ctx run depth a (.error (.ofGraph fault)) a
  | invoked {d : Description} {a' : Active} {r : Except RunFault Unit}
      (function : ctx.graph.function a.call.function = .ok d) (noBody : d.body = none)
      (invoke : ctx.invoke d a = (r, a')) : Performs ctx run depth a r a'
  | unprepared {d : Description} {id : CompositionId} {ts : Terminals} {fault : RunFault}
      (function : ctx.graph.function a.call.function = .ok d) (hasBody : d.body = some id)
      (prepared : a.call.terminals.prepare d a.call.site = (.error fault, ts)) :
      Performs ctx run depth a (.error fault) (a.withTerminals ts)
  | notSetUp {d : Description} {id : CompositionId} {ts : Terminals} {fault : RunFault}
      (function : ctx.graph.function a.call.function = .ok d) (hasBody : d.body = some id)
      (prepared : a.call.terminals.prepare d a.call.site = (.ok (), ts))
      (setUp : ctx.bodyOf id a.body = .error fault) :
      Performs ctx run depth a (.error fault) (a.withTerminals ts)
  | ran {d : Description} {id : CompositionId} {ts : Terminals} {body : Instance} {ran : Ran}
      {r : Except RunFault Unit} (function : ctx.graph.function a.call.function = .ok d)
      (hasBody : d.body = some id)
      (prepared : a.call.terminals.prepare d a.call.site = (.ok (), ts))
      (setUp : ctx.bodyOf id a.body = .ok body)
      (run : run (depth + 1) body.reset ts.resetOutputs a.log = some (r, ran)) :
      Performs ctx _ depth a r
        { a.withTerminals (ran.terminals.afterBody r) with body := some ran.body, log := ran.log }

/-- **How a call executes.** -/
theorem performs_of_execute {run : Runner} {depth : Nat} {a a' : Active} {r : Except RunFault Unit}
    (h : ctx.execute run depth a = some (r, a')) : ctx.Performs run depth a r a' := by
  unfold execute at h
  split at h
  · rename_i fault hd
    obtain ⟨rfl, rfl⟩ := Prod.mk.inj (Option.some.inj h)
    exact .unknown hd
  · rename_i d hd
    split at h
    · rename_i id hid
      unfold runBody at h
      split at h
      · rename_i fault ts hprepare
        obtain ⟨rfl, rfl⟩ := Prod.mk.inj (Option.some.inj h)
        exact .unprepared hd hid hprepare
      · rename_i ts hprepare
        simp only [] at h
        split at h
        · rename_i fault hset
          obtain ⟨rfl, rfl⟩ := Prod.mk.inj (Option.some.inj h)
          exact .notSetUp hd hid hprepare hset
        · rename_i body hset
          split at h
          · exact absurd h (by simp)
          · rename_i result ran hran
            obtain ⟨rfl, rfl⟩ := Prod.mk.inj (Option.some.inj h)
            exact .ran hd hid hprepare hset hran
    · rename_i hnone
      exact .invoked hd hnone (Option.some.inj h)

theorem reset_withTerminals {a : Active} {ts : Terminals} (h : ts.reset = a.call.terminals.reset) :
    (a.withTerminals ts).call.reset = a.call.reset := by
  simp [Active.withTerminals, AppliedCall.reset, h]

/-- Invoking an implementation changes nothing that is declared of its call. -/
theorem reset_invoke {d : Description} {a a' : Active} {r : Except RunFault Unit}
    (h : ctx.invoke d a = (r, a')) : a'.call.reset = a.call.reset := by
  have hassemble := a.call.terminals.reset_assemble d a.call.site
  cases invokes_of_invoke h with
  | unassembled hassembled | unbound hassembled _ | exhausted hassembled _ _
  | failed hassembled _ _ _ =>
      rw [hassembled] at hassemble
      exact reset_withTerminals hassemble
  | @answered args ts ts' f handle v receiver _ hassembled _ _ hpublish =>
      have hpublished := ts.reset_publish v receiver
      rw [hpublish] at hpublished
      rw [hassembled] at hassemble
      exact reset_withTerminals (hpublished.trans hassemble)

theorem published_invoke {d : Description} {a a' : Active} (h : ctx.invoke d a = (.ok (), a')) :
    a'.call.terminals.Published := by
  cases invokes_of_invoke h with
  | answered _ _ _ hpublish => exact Terminals.published_publish hpublish

theorem reset_afterBody (ts : Terminals) (r : Except RunFault Unit) :
    (ts.afterBody r).reset = ts.reset := by
  cases r with
  | ok _ => exact ts.reset_consumeInputs
  | error _ => rfl

/-! ## How implementations run -/

section Invoke

variable {d : Description} {a : Active} {args : Arguments} {ts ts' : Terminals} {f : Callable}
  {handle : Option Callable} {v : Value} {receiver : Option Value}

theorem execute_eq_invoke {run : Runner} {depth : Nat}
    (hd : ctx.graph.function a.call.function = .ok d)
    (hnone : d.body = none) : ctx.execute run depth a = some (ctx.invoke d a) := by
  simp only [execute, hd, hnone]

/-- A call completes if its inputs resolve, its implementation is found and answers with a value,
and the answer can be published. -/
theorem invoke_completed (hassemble : a.call.terminals.assemble d a.call.site = (.ok args, ts))
    (hbind : ctx.bind d a.call.site a.handle args.receiver = (.ok f, handle))
    (hreply : Invocation.send ⟨args.positional, args.keyword, args.receiver⟩ f = ⟨.ok v, receiver⟩)
    (hpublish : ts.publish v receiver = (.ok (), ts')) :
    ctx.invoke d a = (.ok (), { a.withTerminals ts' with handle }) := by
  simp only [invoke, hassemble, hbind, hreply, hpublish]
  rfl

/-- A call is exhausted if its implementation says so; then its inputs were read. -/
theorem invoke_exhausted (hassemble : a.call.terminals.assemble d a.call.site = (.ok args, ts))
    (hbind : ctx.bind d a.call.site a.handle args.receiver = (.ok f, handle))
    (hreply : (Invocation.send ⟨args.positional, args.keyword, args.receiver⟩ f).result
      = .error .exhausted) :
    ctx.invoke d a = (.error (.exhausted a.call.site), { a.withTerminals ts with handle }) := by
  simp only [invoke, hassemble, hbind, hreply]
  rfl

/-- Any other failure of an implementation is reported with the function and its arguments. -/
theorem invoke_failed {fault : HostFault}
    (hassemble : a.call.terminals.assemble d a.call.site = (.ok args, ts))
    (hbind : ctx.bind d a.call.site a.handle args.receiver = (.ok f, handle))
    (hreply : (Invocation.send ⟨args.positional, args.keyword, args.receiver⟩ f).result =
      .error fault)
    (hfault : fault ≠ .exhausted) :
    ctx.invoke d a = (.error (.implementationFailure a.call.site d.name fault.text args.text),
      { a.withTerminals ts with handle }) := by
  simp only [invoke, hassemble, hbind, hreply]
  cases fault with
  | exhausted => exact absurd rfl hfault
  | failed _ | arity _ _ | type _ _ => rfl

end Invoke

/-- **Executing a call changes nothing that is declared of it.** -/
theorem reset_execute {run : Runner} (hrun : run.Faithful) {depth : Nat} {a a' : Active}
    {r : Except RunFault Unit} (h : ctx.execute run depth a = some (r, a')) :
    a'.call.reset = a.call.reset := by
  cases performs_of_execute h with
  | unknown _ => rfl
  | invoked _ _ hinvoke => exact reset_invoke hinvoke
  | @unprepared d _ _ _ _ _ hprepare | @notSetUp d _ _ _ _ _ hprepare _ =>
      have hprepared := a.call.terminals.reset_prepare d a.call.site
      rw [hprepare] at hprepared
      exact reset_withTerminals hprepared
  | @ran d _ ts _ ran _ _ _ hprepare _ hran =>
      have hprepared := a.call.terminals.reset_prepare d a.call.site
      rw [hprepare] at hprepared
      refine reset_withTerminals ?_
      calc (ran.terminals.afterBody r).reset = ran.terminals.reset := reset_afterBody _ r
        _ = ts.resetOutputs.reset := hrun.reset hran
        _ = ts.reset := Terminals.reset_resetOutputs ts
        _ = a.call.terminals.reset := hprepared

/-- **A call that completes has written all its outputs.** -/
theorem published_execute {run : Runner} (hrun : run.Faithful) {depth : Nat} {a a' : Active}
    (h : ctx.execute run depth a = some (.ok (), a')) : a'.call.terminals.Published := by
  cases performs_of_execute h with
  | invoked _ _ hinvoke => exact published_invoke hinvoke
  | ran _ _ _ _ hran => exact Terminals.published_consumeInputs (hrun.published hran)

end Context

end CallFlow
