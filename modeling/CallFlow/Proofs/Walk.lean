import CallFlow.Proofs.Execution

/-!
# Visits

A visit of a call is refused, if its inputs cannot be ingested or there is no such call, or it
executes the call (`Walk.visit_cases`), and it is known what it changes then
(`Walk.Executes.completed`, `Walk.Executes.not_completed`).  Runs of bodies keep what is declared
and publish every output (`Walk.faithful_runner`).
-/

namespace CallFlow

/-- Is the slot one of the call? -/
def Slot.Inside (id : CallId) (slot : Slot) : Prop := ∃ port, slot = .call id port

/-- The scene with another state of a call. -/
def Scene.withCall (s : Scene) (id : CallId) (call : AppliedCall) : Scene :=
  { s with frame.calls := Assoc.modify s.frame.calls id fun _ => call }

namespace Scene

variable {s : Scene} {id : CallId} {call call' : AppliedCall}

theorem keeps_withCall (h : Assoc.find? s.frame.calls id = some call)
    (hreset : call'.reset = call.reset) : s.Keeps (s.withCall id call') := by
  have hcalls : Assoc.mapValues AppliedCall.reset (s.withCall id call').frame.calls
      = Assoc.mapValues AppliedCall.reset s.frame.calls := by
    apply Assoc.mapValues_modify
    intro c hc
    obtain rfl : call = c := Option.some.inj (h.symm.trans hc)
    exact hreset
  refine ⟨rfl, ?_⟩
  intro _
  rw [Frame.reset, hcalls]
  rfl

theorem peek_withCall (h : Assoc.find? s.frame.calls id = some call) (port : Port) :
    (s.withCall id call').peek (.call id port) =
      (call'.terminals.get? port).bind Terminal.peek := by
  simp [withCall, peek, Assoc.find?_modify, h]

theorem terminal?_withCall (s : Scene) (call : AppliedCall) {slot : Slot}
    (hslot : ¬ slot.Inside id) : (s.withCall id call).terminal? slot = s.terminal? slot := by
  cases slot with
  | call id' port =>
      have hid : id ≠ id' := fun hid => hslot ⟨port, by rw [hid]⟩
      simp [terminal?, withCall, Assoc.find?_modify, hid]
  | boundary _ | «variable» _ => rfl

theorem terminal?_withCall_self (h : Assoc.find? s.frame.calls id = some call) (port : Port) :
    (s.withCall id call').terminal? (.call id port) = call'.terminals.get? port := by
  simp [withCall, terminal?, Assoc.find?_modify, h]

theorem keeps_complete (s : Scene) (call : CallId) : s.Keeps (s.complete call) := by
  refine ⟨rfl, ?_⟩
  intro _
  simp [complete, Frame.reset, Wiring.reset_complete]

theorem keeps_settle (s : Scene) (call : CallId) : s.Keeps ((Flow.settle call).run s).2 :=
  (s.keeps_complete call).trans (Flow.evolves_settle s call).keeps

end Scene

namespace Walk

/-! ## Visits -/

/-- A visit that has executed its call. -/
structure Visit where
  call : CallId
  outcome : Outcome
  /-- The terminals of the call as its execution left them. -/
  terminals : Terminals

/-- How a visit ends whose execution has the result. -/
def outcomeOf (successor : Successor) : Except RunFault Unit → Outcome
  | .ok () => .completed
  | .error fault =>
      match fault, successor with
      | .exhausted _, .loop _ _ => .exhausted
      | _, _ => .failed

/-- The visit ingests the inputs of its call, executes the call, and goes on from there. -/
inductive Executes (ctx : Context) (run : Runner) (depth : Nat) (w : Walk) (v : Visit)
    (r : Except RunFault (Option CallId)) (w' : Walk) : Prop where
  | intro {s : Scene} {call : AppliedCall} {result : Except RunFault Unit} {a : Active}
      (ingested : (Flow.ingestAll (w.scene.frame.wiring.inputSlots v.call)).run w.scene =
        (.ok (), s))
      (found : Assoc.find? s.frame.calls v.call = some call)
      (executed : ctx.execute run depth ⟨call, Assoc.find? w.handles v.call,
        Assoc.find? w.bodies v.call, w.log.visit v.call⟩ = some (result, a))
      (outcome : v.outcome = outcomeOf call.successor result)
      (terminals : v.terminals = a.call.terminals)
      (after : (({ w with scene := s, log := w.log.visit v.call } : Walk).keep v.call a).afterCall
        depth v.call call result = (r, w'))

/-- The visit fails before it executes the call: the inputs cannot be ingested, or there is no such
call. -/
inductive Refuses (id : CallId) (w : Walk) : RunFault → Walk → Prop where
  | inputs {fault : RunFault} {s : Scene}
      (ingested : (Flow.ingestAll (w.scene.frame.wiring.inputSlots id)).run w.scene =
        (.error fault, s)) :
      Refuses id w fault { w with scene := s }
  | missing {s : Scene}
      (ingested : (Flow.ingestAll (w.scene.frame.wiring.inputSlots id)).run w.scene = (.ok (), s))
      (found : Assoc.find? s.frame.calls id = none) :
      Refuses id w (.graph (.callNotFound s.frame.id id))
        { w with scene := s, log := w.log.visit id }

/-- **A visit refuses or executes its call.** -/
theorem visit_cases {ctx : Context} {run : Runner} {depth : Nat} {id : CallId} {w w' : Walk}
    {r : Except RunFault (Option CallId)} (h : visit ctx run depth id w = some (r, w')) :
    (∃ fault, r = .error fault ∧ Refuses id w fault w') ∨
    ∃ v : Visit, v.call = id ∧ Executes ctx run depth w v r w' := by
  unfold visit flow at h
  cases hingest : (Flow.ingestAll (w.scene.frame.wiring.inputSlots id)).run w.scene with
  | mk result s =>
    cases result with
    | error fault =>
        simp only [hingest, Option.some.injEq, Prod.mk.injEq] at h
        obtain ⟨rfl, rfl⟩ := h
        exact .inl ⟨fault, rfl, .inputs hingest⟩
    | ok _ =>
        simp only [hingest] at h
        cases hfound : Assoc.find? s.frame.calls id with
        | none =>
            simp only [hfound, Option.some.injEq, Prod.mk.injEq] at h
            obtain ⟨rfl, rfl⟩ := h
            exact .inl ⟨_, rfl, .missing hingest hfound⟩
        | some call =>
            simp only [hfound] at h
            split at h
            · exact absurd h (by simp)
            · rename_i result a hexecute
              exact .inr ⟨⟨id, _, _⟩, rfl,
                .intro hingest hfound hexecute rfl rfl (Option.some.inj h)⟩

/-- A visit whose inputs can be ingested and whose call is there does what the execution entails. -/
theorem visit_eq {ctx : Context} {run : Runner} {depth : Nat} {id : CallId} {w : Walk} {s : Scene}
    {call : AppliedCall} {result : Except RunFault Unit} {a : Active}
    (hingest : (Flow.ingestAll (w.scene.frame.wiring.inputSlots id)).run w.scene = (.ok (), s))
    (hfound : Assoc.find? s.frame.calls id = some call)
    (hexecute : ctx.execute run depth ⟨call, Assoc.find? w.handles id, Assoc.find? w.bodies id,
      w.log.visit id⟩ = some (result, a)) :
    visit ctx run depth id w = some ((({ w with scene := s, log := w.log.visit id } : Walk).keep id
      a).afterCall depth id call result) := by
  simp only [visit, flow, hingest, hfound, hexecute]

/-- A visit of a call that is executed by its implementation. -/
theorem visit_eq_of_invoke {ctx : Context} {run : Runner} {depth : Nat} {id : CallId} {w : Walk}
    {s : Scene} {call : AppliedCall} {d : Description} {handle : Option Callable}
    {body : Option Instance}
    {result : Except RunFault Unit} {a : Active}
    (hingest : (Flow.ingestAll (w.scene.frame.wiring.inputSlots id)).run w.scene = (.ok (), s))
    (hfound : Assoc.find? s.frame.calls id = some call)
    (hd : ctx.graph.function call.function = .ok d)
    (hnone : d.body = none) (hhandle : Assoc.find? w.handles id = handle)
    (hbody : Assoc.find? w.bodies id = body)
    (hinvoke : ctx.invoke d ⟨call, handle, body, w.log.visit id⟩ = (result, a)) :
    visit ctx run depth id w = some ((({ w with scene := s, log := w.log.visit id } : Walk).keep id
      a).afterCall depth id call result) := by
  subst hhandle hbody
  exact visit_eq hingest hfound ((Context.execute_eq_invoke hd hnone).trans (congrArg some hinvoke))

/-- A fault of a call that is no loop node ends the walk. -/
theorem afterCall_failed {w : Walk} {depth : Nat} {id : CallId} {call : AppliedCall}
    {fault : RunFault}
    (hloop : ∀ iterate after, call.successor ≠ .loop iterate after) :
    w.afterCall depth id call (.error fault) = (.error fault, w.record depth id call .failed) := by
  unfold afterCall
  simp only
  split
  · rename_i h
    exact absurd h (hloop _ _)
  · rfl

/-- The ways in which a visit can go on behind the execution of its call: one that has completed is
settled, which may fail; an exhausted loop node passes control on behind the loop; any other fault
ends the walk. -/
inductive Concludes (w : Walk) (depth : Nat) (id : CallId) (call : AppliedCall) :
    Except RunFault Unit → Except RunFault (Option CallId) → Walk → Prop where
  | settled {settled : Except RunFault (List String)} {s : Scene}
      (settle : (Flow.settle id).run w.scene = (settled, s)) :
      Concludes w depth id call (.ok ()) (settled.map fun _ => Flow.advance s id call.successor)
        { w.record depth id call .completed with scene := s }
  | exhausted {site : Site} {iterate : CallId} {after : Option CallId}
      (loop : call.successor = .loop iterate after) :
      Concludes w depth id call (.error (.exhausted site)) (.ok after)
        (w.record depth id call .exhausted)
  | failed {fault : RunFault} (outcome : outcomeOf call.successor (.error fault) = .failed) :
      Concludes w depth id call (.error fault) (.error fault) (w.record depth id call .failed)

section Concludes

variable {w w' : Walk} {depth : Nat} {id : CallId} {call : AppliedCall}
  {result : Except RunFault Unit}
  {r : Except RunFault (Option CallId)}

/-- **What follows the execution of a call.** -/
theorem concludes_of_afterCall (h : w.afterCall depth id call result = (r, w')) :
    w.Concludes depth id call result r w' := by
  unfold afterCall at h
  split at h
  · obtain ⟨rfl, rfl⟩ := Prod.mk.inj h
    exact .settled rfl
  · split at h
    · rename_i hsuccessor
      obtain ⟨rfl, rfl⟩ := Prod.mk.inj h
      exact .exhausted hsuccessor
    · obtain ⟨rfl, rfl⟩ := Prod.mk.inj h
      exact .failed (by simp [outcomeOf])

/-- If the call completed it is settled, and otherwise nothing but the log changes. -/
theorem afterCall_cases (h : w.afterCall depth id call result = (r, w')) :
    (outcomeOf call.successor result = .completed ∧ result = .ok () ∧ ∃ settled s',
      (Flow.settle id).run w.scene = (settled, s') ∧
      w' = { w.record depth id call .completed with scene := s' } ∧
      r = settled.map fun _ => Flow.advance s' id call.successor) ∨
    (outcomeOf call.successor result ≠ .completed ∧
      w' = w.record depth id call (outcomeOf call.successor result)) := by
  cases concludes_of_afterCall h with
  | settled hsettle => exact .inl ⟨rfl, rfl, _, _, hsettle, rfl, rfl⟩
  | exhausted hsuccessor =>
      exact .inr ⟨by simp [outcomeOf, hsuccessor], by simp [outcomeOf, hsuccessor]⟩
  | failed houtcome => exact .inr ⟨by simp [houtcome], by rw [houtcome]⟩

/-- Control goes on after a call that was settled, and behind a loop node that was exhausted. -/
theorem afterCall_eq_ok {next : Option CallId}
    (h : w.afterCall depth id call result = (.ok next, w')) :
    (result = .ok () ∧ next = Flow.advance w'.scene id call.successor) ∨
      ∃ site iterate, result = .error (.exhausted site) ∧ call.successor = .loop iterate next := by
  generalize hr : Except.ok next = r at h
  cases concludes_of_afterCall h with
  | settled _ =>
      obtain ⟨order, -, rfl⟩ := map_eq_ok hr.symm
      exact .inl ⟨rfl, rfl⟩
  | exhausted hsuccessor =>
      obtain rfl := Except.ok.inj hr
      exact .inr ⟨_, _, rfl, hsuccessor⟩
  | failed _ => exact absurd hr (by simp)

/-- A fault comes from the execution of the call, whose visit has failed then, or from settling
it. -/
theorem afterCall_eq_error {fault : RunFault}
    (h : w.afterCall depth id call result = (.error fault, w')) :
    (result = .error fault ∧ outcomeOf call.successor result = .failed) ∨
      ∃ s, (Flow.settle id).run w.scene = (.error fault, s) := by
  generalize hr : Except.error fault = r at h
  cases concludes_of_afterCall h with
  | settled hsettle =>
      obtain rfl := map_eq_error hr.symm
      exact .inr ⟨_, hsettle⟩
  | exhausted _ => exact absurd hr (by simp)
  | failed houtcome =>
      obtain rfl := Except.error.inj hr
      exact .inl ⟨rfl, houtcome⟩

/-- The visit is written down with the outcome that its execution entails. -/
theorem log_afterCall (h : w.afterCall depth id call result = (r, w')) :
    w'.log = w.log.record ⟨depth, w.scene.frame.id, id, call.function,
      outcomeOf call.successor result⟩ := by
  cases concludes_of_afterCall h with
  | settled _ => rfl
  | exhausted hsuccessor =>
      rw [hsuccessor]
      rfl
  | failed houtcome =>
      rw [houtcome]
      rfl

end Concludes

/-- Only a loop node ends a visit as exhausted. -/
theorem isLoop_of_outcomeOf {successor : Successor} {result : Except RunFault Unit}
    (h : outcomeOf successor result = .exhausted) : successor.isLoop = true := by
  unfold outcomeOf at h
  split at h
  · exact absurd h (by simp)
  · split at h
    · rfl
    · exact absurd h (by simp)

/-! ## What a visit changes -/

theorem inside_of_mem_inputSlots {w : Wiring} {id : CallId} {slot : Slot}
    (h : slot ∈ w.inputSlots id) : slot.Inside id := by
  rw [Wiring.inputSlots_eq] at h
  have htest : slot.isOf id = true := (List.mem_filter.1 h).2
  cases slot with
  | call id' port =>
      obtain rfl : id' = id := by simpa [Slot.isOf] using htest
      exact ⟨port, rfl⟩
  | boundary _ | «variable» _ => exact absurd htest (by simp [Slot.isOf])

/-- Ingesting the inputs of a call writes into that call only. -/
theorem evolves_ingestAll {s s' : Scene} {id : CallId} {r : Except RunFault Unit}
    (h : (Flow.ingestAll (s.frame.wiring.inputSlots id)).run s = (r, s')) :
    s.Evolves (Slot.Inside id) s' := by
  have hevolves := Flow.evolves_ingestAll s (s.frame.wiring.inputSlots id)
  rw [h] at hevolves
  exact hevolves.mono fun _ => inside_of_mem_inputSlots

theorem Refuses.evolves {id : CallId} {w w' : Walk} {fault : RunFault} (h : Refuses id w fault w') :
    w.scene.Evolves (Slot.Inside id) w'.scene := by
  cases h with
  | inputs hingest => exact evolves_ingestAll hingest
  | missing hingest _ => exact evolves_ingestAll hingest

theorem Refuses.trace {id : CallId} {w w' : Walk} {fault : RunFault} (h : Refuses id w fault w') :
    w'.log.trace = w.log.trace := by
  cases h <;> rfl

section Executes

variable {ctx : Context} {run : Runner} {depth : Nat} {w w' : Walk} {v : Visit}
  {r : Except RunFault (Option CallId)}

/-- The scene that the execution of a call leaves: nothing but the call has changed, which shows
what its execution has left.  If the call has completed it is then settled. -/
theorem Executes.leaves (h : Executes ctx run depth w v r w') :
    ∃ s, s.frame.wiring = w.scene.frame.wiring ∧
      (∀ slot, ¬ slot.Inside v.call → s.terminal? slot = w.scene.terminal? slot) ∧
      (∀ port, s.terminal? (.call v.call port) = v.terminals.get? port) ∧
      ((v.outcome = .completed ∧ ∃ settled, (Flow.settle v.call).run s = (settled, w'.scene) ∧
          ∃ next, r = settled.map fun _ => next) ∨
        (v.outcome ≠ .completed ∧ w'.scene = s)) := by
  obtain ⟨hingest, hfound, hexecute, houtcome, hterminals, hafter⟩ := h
  rename_i s call result a
  have hevolves := evolves_ingestAll hingest
  refine ⟨s.withCall v.call a.call, hevolves.wiring, fun slot hslot => ?_, fun port => ?_, ?_⟩
  · rw [Scene.terminal?_withCall s _ hslot, hevolves.others slot hslot]
  · rw [Scene.terminal?_withCall_self hfound, hterminals]
  · rcases afterCall_cases hafter with ⟨hcompleted, -, settled, s', hsettle, rfl, hr⟩ | ⟨hne, rfl⟩
    · exact .inl ⟨houtcome.trans hcompleted, settled, hsettle, _, hr⟩
    · exact .inr ⟨fun hc => hne (houtcome ▸ hc), rfl⟩

/-- A call that completes is settled in a scene where the visit has changed nothing but the call,
and the call shows what its execution has left. -/
theorem Executes.completed (hrun : run.Faithful) (h : Executes ctx run depth w v r w')
    (hcompleted : v.outcome = .completed) :
    ∃ s settled, (Flow.settle v.call).run s = (settled, w'.scene) ∧
      (∃ next, r = settled.map fun _ => next) ∧ w.scene.Keeps s ∧
      s.frame.wiring = w.scene.frame.wiring ∧
      (∀ slot, ¬ slot.Inside v.call → s.terminal? slot = w.scene.terminal? slot) ∧
      (∀ port, s.peek (.call v.call port) = (v.terminals.get? port).bind Terminal.peek) ∧
      v.terminals.Published := by
  obtain ⟨hingest, hfound, hexecute, houtcome, hterminals, hafter⟩ := h
  rename_i s call result a
  have hevolves := evolves_ingestAll hingest
  have hreset : a.call.reset = call.reset := Context.reset_execute hrun hexecute
  rcases afterCall_cases hafter with ⟨-, rfl, settled, s', hsettle, rfl, hr⟩ | ⟨hne, -⟩
  · refine ⟨s.withCall v.call a.call, settled, hsettle, ⟨_, hr⟩,
      hevolves.keeps.trans (Scene.keeps_withCall hfound hreset), hevolves.wiring,
      fun slot hslot => ?_,
      fun port => ?_, ?_⟩
    · rw [Scene.terminal?_withCall s _ hslot, hevolves.others slot hslot]
    · rw [Scene.peek_withCall hfound, hterminals]
    · rw [hterminals]
      exact Context.published_execute hrun hexecute
  · exact absurd (houtcome ▸ hcompleted) hne

/-- A visit that does not complete changes nothing but its call, and no authority. -/
theorem Executes.not_completed (h : Executes ctx run depth w v r w')
    (houtcome : v.outcome ≠ .completed) :
    w'.scene.frame.wiring = w.scene.frame.wiring ∧
      ∀ slot, ¬ slot.Inside v.call → w'.scene.terminal? slot = w.scene.terminal? slot := by
  obtain ⟨s, hwiring, hothers, -, ⟨hcompleted, -⟩ | ⟨-, hw'⟩⟩ := h.leaves
  · exact absurd hcompleted houtcome
  · rw [hw']
    exact ⟨hwiring, hothers⟩

/-- The call that a visit executes is there, and declares the terminals that the execution
leaves. -/
theorem Executes.exists_call (hrun : run.Faithful) (h : Executes ctx run depth w v r w') :
    ∃ call, Assoc.find? w.scene.frame.calls v.call = some call ∧
      v.terminals.reset = call.terminals.reset := by
  obtain ⟨hingest, hfound, hexecute, -, hterminals, -⟩ := h
  rename_i s call result a
  have hcalls := (evolves_ingestAll hingest).calls
  have hfind := congrArg (fun m => Assoc.find? m v.call) hcalls
  simp only [Assoc.find?_mapValues, hfound, Option.map_some] at hfind
  obtain ⟨call', hcall', hreset⟩ := Option.map_eq_some_iff.1 hfind.symm
  refine ⟨call', hcall', ?_⟩
  have hleft : a.call.terminals.reset = call.terminals.reset :=
    congrArg AppliedCall.terminals (Context.reset_execute hrun hexecute)
  have hright : call'.terminals.reset = call.terminals.reset :=
    congrArg AppliedCall.terminals hreset
  rw [hterminals, hleft, hright]

/-- **A visit keeps what is declared.** -/
theorem Executes.keeps (hrun : run.Faithful) (h : Executes ctx run depth w v r w') :
    w.scene.Keeps w'.scene := by
  obtain ⟨hingest, hfound, hexecute, -, -, hafter⟩ := h
  rename_i s call result a
  have hreset : a.call.reset = call.reset := Context.reset_execute hrun hexecute
  have hkeeps : w.scene.Keeps (s.withCall v.call a.call) :=
    (evolves_ingestAll hingest).keeps.trans (Scene.keeps_withCall hfound hreset)
  rcases afterCall_cases hafter with ⟨-, -, settled, s', hsettle, rfl, -⟩ | ⟨-, rfl⟩
  · have hsettled := Scene.keeps_settle (s.withCall v.call a.call) v.call
    rw [show (Flow.settle v.call).run (s.withCall v.call a.call) = (settled, s') from hsettle]
      at hsettled
    exact hkeeps.trans hsettled
  · exact hkeeps

/-- **A visit switches authority if it completes, and only then.** -/
theorem Executes.wiring (hrun : run.Faithful) (h : Executes ctx run depth w v r w') :
    w'.scene.frame.wiring =
      if v.outcome = .completed then w.scene.frame.wiring.complete v.call
      else w.scene.frame.wiring := by
  split
  · rename_i hcompleted
    obtain ⟨s, settled, hsettle, -, -, hwiring, -⟩ := h.completed hrun hcompleted
    rw [(Flow.evolves_settle_of_eq hsettle).wiring, ← hwiring]
    rfl
  · rename_i hne
    exact (h.not_completed hne).1

end Executes

/-! ## Runs of bodies -/

/-- What holds of a walk that goes nowhere, of one whose first visit fails, and of one whose first
visit passes control on to a walk of which it holds, holds of every walk.  Of the walks in the
bodies of the visit it may be assumed to hold. -/
theorem induction_on_steps {ctx : Context}
    {P : Nat → Option CallId → Walk → Except RunFault Unit → Walk → Prop}
    (hended : ∀ depth w, P depth none w (.ok ()) w)
    (hfailed : ∀ {fuel depth id w fault w'},
      (∀ {depth next w r w'}, steps ctx fuel depth next w = some (r, w') → P depth next w r w') →
      visit ctx (runner (steps ctx fuel)) depth id w = some (.error fault, w') →
      P depth (some id) w (.error fault) w')
    (hpassed : ∀ {fuel depth id w next w₁ r w'},
      (∀ {depth next w r w'}, steps ctx fuel depth next w = some (r, w') → P depth next w r w') →
      visit ctx (runner (steps ctx fuel)) depth id w = some (.ok next, w₁) → P depth next w₁ r w' →
      P depth (some id) w r w')
    {fuel depth : Nat} {next : Option CallId} {w w' : Walk} {r : Except RunFault Unit}
    (h : steps ctx fuel depth next w = some (r, w')) : P depth next w r w' := by
  -- by induction on the fuel, which bodies and later visits have less of
  induction fuel generalizing depth next w r w' with
  | zero =>
      cases next with
      | none =>
          rw [steps] at h
          obtain ⟨rfl, rfl⟩ := Prod.mk.inj (Option.some.inj h)
          exact hended depth w
      | some id => exact absurd h (by simp [steps])
  | succ fuel ih =>
      cases next with
      | none =>
          rw [steps] at h
          obtain ⟨rfl, rfl⟩ := Prod.mk.inj (Option.some.inj h)
          exact hended depth w
      | some id =>
          rw [steps] at h
          split at h
          · exact absurd h (by simp)
          · rename_i fault w₁ hvisit
            obtain ⟨rfl, rfl⟩ := Prod.mk.inj (Option.some.inj h)
            exact hfailed ih hvisit
          · rename_i following w₁ hvisit
            exact hpassed ih hvisit (ih h)

/-- What every visit does to a walk, if runs of bodies may be assumed to do it too, every walk
does. -/
theorem steps_induction {ctx : Context} {R : Nat → Walk → Walk → Prop}
    (hrefl : ∀ depth w, R depth w w)
    (htrans : ∀ {depth w w' w''}, R depth w w' → R depth w' w'' → R depth w w'')
    (hvisit : ∀ {fuel depth id w r w'},
      (∀ {depth next w r w'}, steps ctx fuel depth next w = some (r, w') → R depth w w') →
      visit ctx (runner (steps ctx fuel)) depth id w = some (r, w') → R depth w w')
    {fuel depth : Nat} {next : Option CallId} {w w' : Walk} {r : Except RunFault Unit}
    (h : steps ctx fuel depth next w = some (r, w')) : R depth w w' :=
  induction_on_steps (P := fun depth _ w _ w' => R depth w w') hrefl (fun ih h => hvisit ih h)
    (fun ih h hlater => htrans (hvisit ih h) hlater) h

/-- The ways in which a run can go: seeding fails, or the walk does, or the results are moved out to
the boundary that there is. -/
theorem around_eq_some {walk : Option CallId → Walk → Fueled Unit Walk} {w w' : Walk}
    {r : Except RunFault Unit} (h : around walk w = some (r, w')) :
    (∃ fault s, Flow.seed.run w.scene = (.error fault, s) ∧ r = .error fault ∧
      w' = { w with scene := s }) ∨
    ∃ s r₁ w₁, Flow.seed.run w.scene = (.ok (), s) ∧
      walk s.frame.start { w with scene := s } = some (r₁, w₁) ∧
      ((r = r₁ ∧ w' = w₁ ∧ (r₁ = .ok () → w₁.scene.boundary = none)) ∨
        ∃ s₁, r₁ = .ok () ∧ w₁.scene.boundary ≠ none ∧ Flow.finish.run w₁.scene = (r, s₁) ∧
          w' = { w₁ with scene := s₁ }) := by
  unfold around flow at h
  cases hseed : Flow.seed.run w.scene with
  | mk result s =>
    cases result with
    | error fault =>
        simp only [hseed, Option.some.injEq, Prod.mk.injEq] at h
        obtain ⟨rfl, rfl⟩ := h
        exact .inl ⟨fault, s, rfl, rfl, rfl⟩
    | ok _ =>
        simp only [hseed] at h
        refine .inr ⟨s, ?_⟩
        split at h
        · exact absurd h (by simp)
        · rename_i fault w₁ hwalk
          obtain ⟨rfl, rfl⟩ := Prod.mk.inj (Option.some.inj h)
          exact ⟨_, _, rfl, hwalk, .inl ⟨rfl, rfl, fun hok => absurd hok (by simp)⟩⟩
        · rename_i w₁ hwalk
          split at h
          · rename_i hboundary
            obtain ⟨rfl, rfl⟩ := Prod.mk.inj (Option.some.inj h)
            exact ⟨_, _, rfl, hwalk, .inl ⟨rfl, rfl, fun _ => hboundary⟩⟩
          · rename_i ts hboundary
            obtain ⟨hr, rfl⟩ := Prod.mk.inj (Option.some.inj h)
            exact ⟨_, _, rfl, hwalk, .inr ⟨_, rfl, by simp [hboundary], Prod.ext hr rfl, rfl⟩⟩

/-- What a run leaves keeps what is declared, if the walk does. -/
theorem keeps_around {walk : Option CallId → Walk → Fueled Unit Walk}
    (hwalk : ∀ {next w r w'}, walk next w = some (r, w') → w.scene.Keeps w'.scene) {w w' : Walk}
    {r : Except RunFault Unit} (h : around walk w = some (r, w')) : w.scene.Keeps w'.scene := by
  have hseeded := (Flow.evolves_seed w.scene).keeps
  rcases around_eq_some h with ⟨fault, s, hseed, -, rfl⟩ | ⟨s, r₁, w₁, hseed, hsteps, hend⟩
  · rwa [hseed] at hseeded
  · rw [hseed] at hseeded
    have hwalked : w.scene.Keeps w₁.scene := hseeded.trans (hwalk hsteps)
    rcases hend with ⟨-, rfl, -⟩ | ⟨s₁, -, -, hfinish, rfl⟩
    · exact hwalked
    · have hfinished := (Flow.evolves_finish w₁.scene).keeps
      rw [hfinish] at hfinished
      exact hwalked.trans hfinished

/-- The run that a runner has made. -/
theorem runner_eq_some {walk : Nat → Option CallId → Walk → Fueled Unit Walk} {depth : Nat}
    {body : Instance} {ts : Terminals} {log : Log} {r : Except RunFault Unit} {ran : Ran}
    (h : runner walk depth body ts log = some (r, ran)) :
    ∃ w, around (walk depth) (begin body (some ts) log) = some (r, w) ∧
      ran = ⟨w.toInstance, w.scene.boundary.getD ts, w.log⟩ := by
  unfold runner at h
  split at h
  · exact absurd h (by simp)
  · rename_i result w hrun
    obtain ⟨rfl, rfl⟩ := Prod.mk.inj (Option.some.inj h)
    exact ⟨w, hrun, rfl⟩

/-- Bodies are run faithfully if the walk keeps what is declared: that outputs are written is what
`finish` sees to. -/
theorem faithful_of_keeps {walk : Nat → Option CallId → Walk → Fueled Unit Walk}
    (hwalk : ∀ {depth next w r w'}, walk depth next w = some (r, w') → w.scene.Keeps w'.scene) :
    (runner walk).Faithful := by
  -- the boundary stays, since it was there in the beginning
  have hboundary : ∀ {depth body ts log r w},
      around (walk depth) (begin body (some ts) log) = some (r, w) →
      ∃ ts', w.scene.boundary = some ts' ∧ ts'.reset = ts.reset := fun {_ _ ts _ _ _} h => by
    have hkeeps := (keeps_around hwalk h).boundary
    exact Option.map_eq_some_iff.1 (hkeeps.trans (Option.map_some ..))
  constructor
  · intro depth body ts log r ran h
    obtain ⟨w, hrun, rfl⟩ := runner_eq_some h
    obtain ⟨ts', hts', hreset⟩ := hboundary hrun
    simp [hts', hreset]
  · intro depth body ts log ran h
    obtain ⟨w, hrun, rfl⟩ := runner_eq_some h
    obtain ⟨ts', hts', -⟩ := hboundary hrun
    rcases around_eq_some hrun with ⟨fault, s, -, hr, -⟩ | ⟨s, r₁, w₁, -, -, hend⟩
    · exact absurd hr (by simp)
    · rcases hend with ⟨rfl, rfl, hnone⟩ | ⟨s₁, -, -, hfinish, rfl⟩
      · exact absurd (hts'.symm.trans (hnone rfl)) (by simp)
      · change s₁.boundary = some ts' at hts'
        intro port t hport ht
        have hget : ts'.get? port = some t := by simpa [hts'] using ht
        have hslot : Flow.IsResult (.boundary port) := by
          cases port with
          | param _ | receiver => exact absurd hport (by simp [Port.isOutput])
          | output => exact .inl rfl
          | selfOutput => exact .inr rfl
        exact Flow.settled_finish hfinish hslot t (by simpa [Scene.terminal?, hts'] using hget)

theorem keeps_visit {ctx : Context} {run : Runner} (hrun : run.Faithful) {depth : Nat} {id : CallId}
    {w w' : Walk} {r : Except RunFault (Option CallId)}
    (h : visit ctx run depth id w = some (r, w')) :
    w.scene.Keeps w'.scene := by
  rcases visit_cases h with ⟨fault, -, hrefuses⟩ | ⟨v, -, hexecutes⟩
  · exact hrefuses.evolves.keeps
  · exact hexecutes.keeps hrun

/-- **Walks keep what is declared.** -/
theorem keeps_steps {ctx : Context} {fuel depth : Nat} {next : Option CallId} {w w' : Walk}
    {r : Except RunFault Unit} (h : steps ctx fuel depth next w = some (r, w')) :
    w.scene.Keeps w'.scene :=
  steps_induction (R := fun _ w w' => w.scene.Keeps w'.scene) (fun _ w => .refl w.scene) .trans
    (fun ih hvisit => keeps_visit (faithful_of_keeps ih) hvisit) h

/-- **Runs of bodies keep what is declared and publish every output.** -/
theorem faithful_runner (ctx : Context) (fuel : Nat) : (runner (steps ctx fuel)).Faithful :=
  faithful_of_keeps keeps_steps

end Walk

end CallFlow
