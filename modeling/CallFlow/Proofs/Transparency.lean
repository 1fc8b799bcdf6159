import CallFlow.Engine
import CallFlow.Host.Standard
import CallFlow.Proofs.Delegation

/-!
# Delegation is transparent

A function has the same results as one whose body delegates to it.  The results of either are
given by what its implementation answers to the inputs: `Engine.executeWithin_native_iff` and
`Engine.executeWithin_wrapper_iff`.

The wrapper writes what stands in for an absent input to a terminal, where its type is checked,
and the function itself does not.  So the second statement has a condition on these values.  Where
they are not of the declared types a function may have results and its wrapper none.
-/

namespace CallFlow

/-- The implementation answers to the inputs, and with the answer the outputs are these. -/
def Context.Answers (ctx : Context) (d : Description) (ts : Terminals)
    (outputs : List (String × Value)) :
    Prop :=
  ∃ v r, ctx.Gives d ts v r ∧ ts.Takes v r ∧ Engine.outputsOf (ts.answered v r) = outputs

theorem Context.answers_relocate_iff {ctx : Context} {d : Description}
    {ts : Terminals} {site : Site}
    {outputs : List (String × Value)} :
    ctx.Answers d (ts.relocate site) outputs ↔ ctx.Answers d ts outputs := by
  refine exists_congr fun v => exists_congr fun r => ?_
  rw [gives_relocate_iff, Terminals.takes_relocate_iff, Terminals.answered_relocate,
    Engine.outputsOf_relocate]

namespace Delegation

variable {ctx : Context} (D : Delegation ctx.graph) {site : Site} {depth : Nat}
  {run : Runner} {a : Active}

/-! ## The two functions -/

theorem ofDescription_wrapper (site : Site) (checked : Bool) :
    Terminals.ofDescription D.wrapper site checked = .ofDescription D.native site checked := by
  simp only [Terminals.ofDescription, D.params, D.receiver, D.output, D.selfOutput]

theorem resolves_wrapper_iff {ts : Terminals} {values : List Value} {r : Option Value} :
    ts.Resolves D.wrapper values r ↔ ts.Resolves D.native values r := by
  have hreceiver : ts.receiverValue? D.wrapper = ts.receiverValue? D.native := by
    simp only [Terminals.receiverValue?, D.receiver]
  constructor
  · intro h
    exact ⟨D.params ▸ h.params, hreceiver ▸ h.receiver⟩
  · intro h
    exact ⟨D.params.symm ▸ h.params, hreceiver.symm ▸ h.receiver⟩

theorem defaultsConform_wrapper (h : D.native.DefaultsConform) : D.wrapper.DefaultsConform where
  params := D.params.symm ▸ h.params
  receiver := D.receiver.symm ▸ h.receiver

variable {ts ts' : Terminals} {site' : Site} {fuel : Nat} {outputs : List (String × Value)}

/-- The outputs that are written with an answer do not depend on what they held. -/
theorem outputsOf_answered {us : Terminals} (houtput : ts'.output = ts.output)
    (hself : ts'.selfOutput = ts.selfOutput) (v : Value) (r : Option Value)
    (hus : us = (ts'.resetOutputs.answered v r).consumeInputs) :
    Engine.outputsOf us = Engine.outputsOf (ts.answered v r) := by
  have hout : us.output = (ts.answered v r).output := by
    rw [hus]
    change ts'.output.holding v = ts.output.holding v
    rw [houtput]
  have hselfOutput : us.selfOutput = (ts.answered v r).selfOutput := by
    rw [hus]
    change (ts'.selfOutput.map Terminal.reset).map (·.holding (r.getD .none))
      = ts.selfOutput.map (·.holding (r.getD .none))
    rw [Option.map_map, hself]
    rfl
  simp only [Engine.outputsOf, hout, hselfOutput]

section Prepared

variable (hprepare : ts.prepare D.wrapper site' = (.ok (), ts'))
  (hreset : ts.reset = .ofDescription D.native site ctx.checked)
  (hplain : ts.EachInput Terminal.IsPlain)

include hprepare hreset hplain

/-- After the preparation the body can run. -/
theorem ready_of_prepare : D.Ready ctx.checked ts'.resetOutputs := by
  obtain ⟨hholds, -⟩ := Terminals.prepare_of_isPlain
    (hreset.trans (D.ofDescription_wrapper site ctx.checked).symm) hplain hprepare
  have hkept := ts.reset_prepare D.wrapper site'
  rw [hprepare] at hkept
  refine ⟨⟨hholds.params, hholds.receiver⟩, ⟨site, ?_⟩, ?_⟩
  · rw [Terminals.reset_resetOutputs, hkept, hreset]
  · simp [Terminals.resetOutputs, Function.comp_def]

/-- The inputs that are prepared are answered as those before. -/
theorem gives_of_prepare_iff {v : Value} {r : Option Value} :
    ctx.Gives D.native ts'.resetOutputs v r ↔ ctx.Gives D.native ts v r := by
  obtain ⟨-, hresolves⟩ := Terminals.prepare_of_isPlain
    (hreset.trans (D.ofDescription_wrapper site ctx.checked).symm) hplain hprepare
  obtain ⟨site', hreset'⟩ := (D.ready_of_prepare hprepare hreset hplain).reset
  have hlength : ts'.resetOutputs.params.length = ts.params.length :=
    (Terminals.length_of_reset_eq hreset').trans (Terminals.length_of_reset_eq hreset).symm
  have hiff :
      ∀ values r, ts'.resetOutputs.Resolves D.native values r ↔ ts.Resolves D.native values r := by
    intro values r
    rw [← D.resolves_wrapper_iff, ← D.resolves_wrapper_iff, ← hresolves]
    exact ⟨fun h => ⟨h.params, h.receiver⟩, fun h => ⟨h.params, h.receiver⟩⟩
  exact ⟨fun h => h.congr hlength.symm fun values r => (hiff values r).1,
    fun h => h.congr hlength fun values r => (hiff values r).2⟩

end Prepared

/-- The outputs admit what they admitted before the preparation. -/
theorem takes_of_prepare_iff {d : Description}
    (hprepare : ts.prepare d site' = (.ok (), ts')) {v : Value}
    {r : Option Value} : ts'.resetOutputs.Takes v r ↔ ts.Takes v r := by
  obtain ⟨-, -, houtput, hself⟩ := Terminals.prepare_eq_ok hprepare
  constructor
  · intro h
    refine ⟨houtput ▸ h.output, fun t ht => h.selfOutput t.reset ?_⟩
    simp [Terminals.resetOutputs, hself, ht]
  · intro h
    refine ⟨?_, fun t ht => ?_⟩
    · change ts'.output.check none v = .ok ()
      rw [houtput]
      exact h.output
    · obtain ⟨u, hu, rfl⟩ := Option.map_eq_some_iff.1 ht
      exact h.selfOutput u (hself ▸ hu)

/-- After the preparation the wrapper has the results that its body gives. -/
theorem runBody_iff (hprepare : a.call.terminals.prepare D.wrapper a.call.site = (.ok (), ts'))
    (hreset : a.call.terminals.reset = .ofDescription D.native site ctx.checked)
    (hplain : a.call.terminals.EachInput Terminal.IsPlain) (hbody : a.body = none) :
    (∃ a', ctx.runBody (Walk.runner (Walk.steps ctx (fuel + 1))) depth D.wrapper D.body
      a = some (.ok (), a') ∧
        Engine.outputsOf a'.call.terminals = outputs) ↔
      ctx.Answers D.native a.call.terminals outputs := by
  obtain ⟨-, -, houtput, hself⟩ := Terminals.prepare_eq_ok hprepare
  have hready := D.ready_of_prepare hprepare hreset hplain
  have hgives : ∀ v r, ctx.Gives D.native ts'.resetOutputs v r ↔
      ctx.Gives D.native a.call.terminals v r :=
    fun v r => D.gives_of_prepare_iff hprepare hreset hplain
  have htakes : ∀ v r, ts'.resetOutputs.Takes v r ↔ a.call.terminals.Takes v r :=
    fun v r => takes_of_prepare_iff hprepare
  have hrun : ∀ (run : Runner) result ran,
      run (depth + 1) D.unstarted ts'.resetOutputs a.log = some (result, ran) →
      ctx.runBody run depth D.wrapper D.body a = some (result,
        { a.withTerminals (ran.terminals.afterBody result) with
          body := some ran.body, log := ran.log }) := by
    intro run result ran heq
    simp only [Context.runBody, hprepare, hbody, D.bodyOf_eq, D.reset_unstarted, heq]
  constructor
  · rintro ⟨a', hran, hout⟩
    by_cases hanswer : ∃ v r, ctx.Gives D.native ts'.resetOutputs v r ∧ ts'.resetOutputs.Takes v r
    · obtain ⟨v, r, hv, hr⟩ := hanswer
      obtain ⟨ran, heq, hterminals⟩ := D.runner_of_gives fuel (depth + 1) hready hv hr
      rw [hrun _ _ _ heq] at hran
      obtain ⟨-, rfl⟩ := Prod.mk.inj (Option.some.inj hran)
      refine ⟨v, r, (hgives v r).1 hv, (htakes v r).1 hr, ?_⟩
      rw [← hout]
      exact (outputsOf_answered houtput hself v
        r (congrArg Terminals.consumeInputs hterminals)).symm
    · obtain ⟨fault, ran, heq⟩ := D.runner_of_not_gives fuel (depth + 1) hready
        fun v r hv hr => hanswer ⟨v, r, hv, hr⟩
      rw [hrun _ _ _ heq] at hran
      exact absurd (congrArg Prod.fst (Option.some.inj hran)) (by simp)
  · rintro ⟨v, r, hv, hr, hout⟩
    obtain ⟨ran, heq, hterminals⟩ := D.runner_of_gives fuel (depth + 1) hready
      ((hgives v r).2 hv) ((htakes v r).2 hr)
    refine ⟨_, hrun _ _ _ heq, ?_⟩
    rw [← hout]
    exact outputsOf_answered houtput hself v r (congrArg Terminals.consumeInputs hterminals)

/-- **The wrapper gives what the implementation answers.** -/
theorem execute_wrapper_iff (hfunction : a.call.function = D.wrapper.id)
    (hreset : a.call.terminals.reset = .ofDescription D.native site ctx.checked)
    (hplain : a.call.terminals.EachInput Terminal.IsPlain) (hbody : a.body = none)
    (hdefaults : ctx.checked = true → D.native.DefaultsConform) :
    (∃ a', ctx.execute (Walk.runner (Walk.steps ctx (fuel + 1))) depth a = some (.ok (), a') ∧
        Engine.outputsOf a'.call.terminals = outputs) ↔
      ctx.Answers D.native a.call.terminals outputs := by
  have hexecute :
      ∀ run : Runner, ctx.execute run depth a = ctx.runBody run depth D.wrapper D.body a := by
    intro run
    simp only [Context.execute, hfunction, D.wrapperFound, D.hasBody]
  simp only [hexecute]
  cases hprepare : a.call.terminals.prepare D.wrapper a.call.site with
  | mk prepared ts' =>
      cases prepared with
      | ok _ => exact D.runBody_iff hprepare hreset hplain hbody
      | error fault =>
          constructor
          · rintro ⟨a', hran, -⟩
            rw [Context.runBody, hprepare] at hran
            exact absurd (congrArg Prod.fst (Option.some.inj hran)) (by simp)
          · rintro ⟨v, r, ⟨values, receiver, sorted, f, hresolves, -⟩, -, -⟩
            obtain ⟨us, hus⟩ := Terminals.exists_prepare
              (hreset.trans (D.ofDescription_wrapper site ctx.checked).symm)
              (D.resolves_wrapper_iff.2 hresolves)
              (fun h => D.defaultsConform_wrapper (hdefaults h))
            rw [hprepare] at hus
            exact absurd (congrArg Prod.fst hus) (by simp)

/-- The implementation itself gives just that. -/
theorem execute_native_iff (hfunction : a.call.function = D.native.id) (hhandle : a.handle = none) :
    (∃ a', ctx.execute run depth a = some (.ok (), a') ∧
      Engine.outputsOf a'.call.terminals = outputs) ↔
      ctx.Answers D.native a.call.terminals outputs := by
  have hfound : ctx.graph.function a.call.function = .ok D.native := by
    rw [hfunction, D.nativeFound]
  rw [Context.execute_eq_invoke hfound D.noBody]
  constructor
  · rintro ⟨a', hinvoke, hout⟩
    obtain ⟨v, r, hgives, htakes, hterminals⟩ :=
      Context.gives_of_invoke hhandle (Option.some.inj hinvoke)
    refine ⟨v, r, hgives, htakes, ?_⟩
    rw [← hout, hterminals]
    rfl
  · rintro ⟨v, r, hgives, htakes, hout⟩
    obtain ⟨handle, hinvoke⟩ := Context.invoke_of_gives hhandle hgives htakes
    exact ⟨_, congrArg some hinvoke, hout⟩

end Delegation

/-! ## Wrapping a function -/

/-- All ports of a function, those of its parameters first. -/
def Description.ports (d : Description) : List Port :=
  (List.range d.params.length).map (fun i => .param (UInt16.ofNat i))
    ++ (if d.receiver.isSome then [.receiver] else [])
    ++ .output :: (if d.selfOutput.isSome then [.selfOutput] else [])

theorem Description.mem_ports {d : Description} (hparams : d.params.length ≤ 65536) (port : Port) :
    port ∈ d.ports ↔ Graph.hasPort d port = true := by
  cases port with
  | param i =>
      have hmem : .param i ∈ d.ports ↔ ∃ n < d.params.length, UInt16.ofNat n = i := by
        by_cases hreceiver : d.receiver.isSome <;> by_cases hself : d.selfOutput.isSome <;>
          simp [ports, hreceiver, hself]
      rw [hmem, Graph.hasPort, decide_eq_true_iff]
      constructor
      · rintro ⟨n, hn, rfl⟩
        rwa [UInt16.toNat_ofNat_of_lt' (show n < 65536 by omega)]
      · exact fun hi => ⟨i.toNat, hi, UInt16.ofNat_toNat⟩
  | receiver =>
      by_cases hreceiver : d.receiver.isSome <;> by_cases hself : d.selfOutput.isSome <;>
        simp [ports, Graph.hasPort, hreceiver, hself]
  | output => simp [ports, Graph.hasPort]
  | selfOutput =>
      by_cases hreceiver : d.receiver.isSome <;> by_cases hself : d.selfOutput.isSome <;>
        simp [ports, Graph.hasPort, hreceiver, hself]

theorem Description.nodup_ports {d : Description} (hparams : d.params.length ≤ 65536) :
    d.ports.Nodup := by
  have hinjective :
      ((List.range d.params.length).map fun i => Port.param (UInt16.ofNat i)).Nodup := by
    refine List.Nodup.map_on (fun i hi j hj heq => ?_) List.nodup_range
    have hports : UInt16.ofNat i = UInt16.ofNat j := Port.param.inj heq
    rw [List.mem_range] at hi hj
    rw [← UInt16.toNat_ofNat_of_lt' (show i < 65536 by omega), hports,
      UInt16.toNat_ofNat_of_lt' (show j < 65536 by omega)]
  by_cases hreceiver : d.receiver.isSome <;> by_cases hself : d.selfOutput.isSome <;>
    simp [ports, List.nodup_append, hreceiver, hself, hinjective]

/-- A graph with a function, and with a second one whose body is a call of the first one. -/
def Graph.wrapping (d : Description) : Graph :=
  .ofParts d.name [{ d with id := ⟨0⟩ },
    { d with id := ⟨1⟩, body := some ⟨0⟩, implementation := none }]
    [{ id := ⟨0⟩, name := d.name, represents := some ⟨1⟩, starts := [⟨0⟩]
       calls := [⟨⟨0⟩, ⟨0⟩, .stop, none⟩], mappings := d.ports.map (Port.passage ⟨0⟩) }]

/-- Every function with an implementation can be wrapped, as long as its parameters have ports. -/
def Delegation.wrapping (d : Description) (hbody : d.body = none)
    (hparams : d.params.length ≤ 65536) :
    Delegation (.wrapping d) where
  native := { d with id := ⟨0⟩ }
  wrapper := { d with id := ⟨1⟩, body := some ⟨0⟩, implementation := none }
  body := ⟨0⟩
  name := d.name
  call := ⟨0⟩
  label := none
  ports := d.ports
  nativeFound := rfl
  wrapperFound := rfl
  bodyFound := rfl
  noBody := hbody
  hasBody := rfl
  params := rfl
  receiver := rfl
  output := rfl
  selfOutput := rfl
  nodup := Description.nodup_ports hparams
  mem_ports := Description.mem_ports hparams
  addressed i hi := ⟨UInt16.ofNat i, UInt16.toNat_ofNat_of_lt' (Nat.lt_of_lt_of_le hi hparams)⟩

/-! ## Results -/

namespace Engine

/-- A function has results if its inputs can be bound and its call completes. -/
theorem executeWithin_function_iff {e : Engine} {id : FunctionId} {d : Description} {fuel : Nat}
    {inputs outputs : List (String × Value)} (hd : e.context.graph.function id = .ok d) :
    (∃ e', e.executeWithin fuel (.function id) inputs = some (.ok outputs, e')) ↔
      ∃ ts, bindInputs d (.ofDescription d (.entry id) e.context.checked) inputs = .ok ts ∧
        ∃ a', e.context.execute (Walk.runner (Walk.steps e.context fuel)) 0
            ⟨{ AppliedCall.ofDescription d (.entry id) .stop none e.context.checked with
              terminals := ts },
              none, none, Log.start e.tracing⟩ = some (.ok (), a') ∧
          outputsOf a'.call.terminals = outputs := by
  constructor
  · rintro ⟨e', h⟩
    rcases succeeds_of_executeWithin h with ⟨_, a, hopens, hexecute, houtputs, -⟩ |
      ⟨_, _, hopens, -⟩
    · cases hopens with
      | @function id' d' ts htarget hd' hbind =>
          obtain rfl : id = id' := Option.some.inj htarget
          obtain rfl : d = d' := Except.ok.inj (hd.symm.trans hd')
          exact ⟨ts, hbind, a, hexecute, houtputs.symm⟩
    · cases hopens with
      | standalone heq _ _ _ _ => exact absurd heq (by simp)
  · rintro ⟨ts, hbind, a, hexecute, rfl⟩
    have hbind' : bindInputs d (AppliedCall.ofDescription d (.entry id) .stop none
        e.context.checked).terminals inputs = .ok ts := hbind
    simp only [executeWithin, runTarget, runFunction, hd, hbind', hexecute]
    exact ⟨_, rfl⟩

/-- The inputs can be bound to those of a function, and its implementation answers to them. -/
def Answers (e : Engine) (d : Description) (inputs outputs : List (String × Value)) : Prop :=
  ∃ ts, bindInputs d (.ofDescription d (.entry d.id) e.context.checked) inputs = .ok ts ∧
    e.context.Answers d ts outputs

variable {e : Engine} (D : Delegation e.context.graph) {fuel : Nat}
  {inputs outputs : List (String × Value)}

/-- The results of the implementation are its answers. -/
theorem executeWithin_native_iff :
    (∃ e', e.executeWithin fuel (.function D.native.id) inputs = some (.ok outputs, e')) ↔
      e.Answers D.native inputs outputs := by
  rw [executeWithin_function_iff D.nativeFound]
  refine exists_congr fun ts => and_congr_right fun _ => ?_
  exact D.execute_native_iff rfl rfl

/-- The wrapper binds the inputs that the implementation binds. -/
theorem bindInputs_wrapper_eq_ok_iff {ts' : Terminals} :
    bindInputs D.wrapper (.ofDescription D.wrapper (.entry D.wrapper.id) e.context.checked) inputs =
      .ok ts' ↔
      ∃ ts, bindInputs D.native (.ofDescription D.native (.entry D.native.id) e.context.checked)
        inputs
          = .ok ts ∧
        ts.relocate (.entry D.wrapper.id) = ts' := by
  have hbind := toOption_bindInputs_relocate D.native D.wrapper (.entry D.wrapper.id)
    (.ofDescription D.native (.entry D.native.id) e.context.checked) inputs
  rw [Terminals.relocate_ofDescription, ← D.ofDescription_wrapper] at hbind
  rw [← toOption_eq_some, hbind]
  simp only [Option.map_eq_some_iff, toOption_eq_some]

/-- **So are those of the wrapper**, if what stands in for absent inputs is of the declared types or
types are not checked. -/
theorem executeWithin_wrapper_iff
    (hdefaults : e.context.checked = true → D.native.DefaultsConform) :
    (∃ e', e.executeWithin (fuel + 1) (.function D.wrapper.id) inputs = some (.ok outputs, e')) ↔
      e.Answers D.native inputs outputs := by
  have hexecute : ∀ {ts},
      bindInputs D.wrapper (.ofDescription D.wrapper (.entry D.wrapper.id) e.context.checked) inputs
        = .ok (ts.relocate (.entry D.wrapper.id)) →
      ((∃ a', e.context.execute (Walk.runner (Walk.steps e.context (fuel + 1))) 0
          ⟨{ AppliedCall.ofDescription D.wrapper (.entry D.wrapper.id) .stop none
            e.context.checked with
            terminals := ts.relocate (.entry D.wrapper.id) }, none, none, Log.start e.tracing⟩
            = some (.ok (), a') ∧ outputsOf a'.call.terminals = outputs) ↔
        e.context.Answers D.native ts outputs) := by
    intro ts hts
    have hreset : (ts.relocate (.entry D.wrapper.id)).reset
        = .ofDescription D.native (.entry D.wrapper.id) e.context.checked := by
      rw [reset_bindInputs hts, Terminals.reset_ofDescription, D.ofDescription_wrapper]
    have hplain : (ts.relocate (.entry D.wrapper.id)).EachInput Terminal.IsPlain :=
      (Terminals.isPlain_ofDescription _ _ _).bindInputs hts
    exact (D.execute_wrapper_iff rfl hreset hplain rfl hdefaults).trans Context.answers_relocate_iff
  rw [executeWithin_function_iff D.wrapperFound]
  constructor
  · rintro ⟨ts', hts', hrun⟩
    obtain ⟨ts, hts, rfl⟩ := (bindInputs_wrapper_eq_ok_iff D).1 hts'
    exact ⟨ts, hts, (hexecute hts').1 hrun⟩
  · rintro ⟨ts, hts, hanswer⟩
    have hts' := (bindInputs_wrapper_eq_ok_iff D).2 ⟨ts, hts, rfl⟩
    exact ⟨_, hts', (hexecute hts').2 hanswer⟩

/-- **Delegation through a body is transparent.**  A function with an implementation and one whose
body is one call of it have the same results, if what stands in for absent inputs is of the declared
types or types are not checked. -/
theorem delegates_of_executeWithin
    (hdefaults : e.context.checked = true → D.native.DefaultsConform) :
    (∃ e', e.executeWithin (fuel + 1) (.function D.native.id) inputs = some (.ok outputs, e')) ↔
      ∃ e', e.executeWithin (fuel + 1) (.function D.wrapper.id) inputs =
        some (.ok outputs, e') := by
  rw [executeWithin_native_iff, executeWithin_wrapper_iff D hdefaults]

end Engine

/-! ### A method and its wrapper -/

namespace Sample

/-- A method that changes its receiver, with a default for the item. -/
def appending : Description :=
  { Description.plain ⟨0⟩ "append" [⟨"item", .int, .positional 0, some (.int 7)⟩] with
    receiver := some ⟨"self", .list, .positional 0, none⟩
    selfOutput := some ⟨"self", .list⟩
    implementation := some "list.append" }

/-- An engine for a function and its wrapper that checks types. -/
def wrapped (d : Description) : Engine :=
  .new (.wrapping d) Registry.standard.host { checked := true }

theorem defaultsConform_appending : appending.DefaultsConform where
  params p hp v hv := by
    obtain rfl := List.mem_singleton.1 hp
    obtain rfl := Option.some.inj hv
    rfl
  receiver p hp v hv := by
    obtain rfl := Option.some.inj hp
    exact absurd hv (by simp [Param.fallback?])

end Sample

/-- The wrapper of the method too appends the default to the list that it is given. -/
theorem Engine.delegates_of_executeWithin_sample : Sample.appending.DefaultsConform ∧ ∃ outputs,
    outputs.map (fun o => (o.1, o.2.text)) = [("result", "None"), ("self", "[1, 7]")] ∧
    (∃ e', (Sample.wrapped Sample.appending).executeWithin 2 (.function ⟨0⟩)
      [("self", .list [.int 1])]
      = some (.ok outputs, e')) ∧
    ∃ e', (Sample.wrapped Sample.appending).executeWithin 2 (.function ⟨1⟩)
      [("self", .list [.int 1])]
      = some (.ok outputs, e') := by
  have hcheck : ((Sample.wrapped Sample.appending).executeWithin 2 (.function ⟨0⟩)
      [("self", .list [.int 1])]).any (fun ran => ran.1.toOption.any fun outputs =>
        outputs.map (fun o => (o.1, o.2.text)) ==
          [("result", "None"), ("self", "[1, 7]")]) = true := by
    decide +kernel
  obtain ⟨⟨r, e'⟩, hexecute, hr⟩ := (Option.any_eq_true ..).1 hcheck
  obtain ⟨outputs, hr, htexts⟩ := (Option.any_eq_true ..).1 hr
  obtain rfl := toOption_eq_some.1 hr
  refine ⟨Sample.defaultsConform_appending, outputs, beq_iff_eq.1 htexts, ⟨e', hexecute⟩, ?_⟩
  exact (delegates_of_executeWithin (e := Sample.wrapped Sample.appending)
    (.wrapping Sample.appending rfl (by decide))
    fun _ => Sample.defaultsConform_appending).1 ⟨e', hexecute⟩

/-! ### A receiver that collects -/

namespace Sample

/-- A function whose receiver is a number and has the kind of a parameter that collects
arguments. -/
def collecting : Description :=
  { Description.plain ⟨0⟩ "pack" [] with
    receiver := some ⟨"self", .int, .varPositional, none⟩
    implementation := some "pack" }

/-- The function and its wrapper. -/
def collectors : Delegation (wrapped collecting).context.graph :=
  .wrapping collecting rfl (by decide)

end Sample

/-- Where no default is declared, and types are checked, a function may have results and its wrapper
none: the empty list that stands in for a receiver that collects is no number, and only the wrapper
checks it. -/
theorem Engine.not_delegates_of_collecting_receiver :
    (Sample.wrapped Sample.collecting).context.graph.check.toOption.isSome ∧
    Sample.collectors.native.fault? = none ∧
    (∀ p, p ∈ Sample.collectors.native.params ∨ Sample.collectors.native.receiver = some p →
      p.default.isNone) ∧
    (∃ outputs e',
      (Sample.wrapped Sample.collecting).execute (.function Sample.collectors.native.id) []
      = some (.ok outputs, e') ∧ outputs.map (fun o => (o.1, o.2.text)) = [("result", "[]")]) ∧
    ¬ ∃ outputs e',
      (Sample.wrapped Sample.collecting).execute (.function Sample.collectors.wrapper.id) []
      = some (.ok outputs, e') := by
  have hnative : ((Sample.wrapped Sample.collecting).execute (.function ⟨0⟩) []).any (fun ran =>
      ran.1.toOption.any fun outputs =>
        outputs.map (fun o => (o.1, o.2.text)) == [("result", "[]")]) = true := by
    decide +kernel
  have hwrapper : ((Sample.wrapped Sample.collecting).execute (.function ⟨1⟩) []).any (fun ran =>
      ran.1.toOption.isNone) = true := by
    decide +kernel
  refine ⟨by decide, by decide, ?_, ?_, ?_⟩
  · rintro p (hp | hp)
    · exact absurd hp (List.not_mem_nil)
    · obtain rfl := Option.some.inj hp
      rfl
  · obtain ⟨⟨r, e'⟩, hexecute, hr⟩ := (Option.any_eq_true ..).1 hnative
    obtain ⟨outputs, hr, htexts⟩ := (Option.any_eq_true ..).1 hr
    obtain rfl := toOption_eq_some.1 hr
    exact ⟨outputs, e', hexecute, beq_iff_eq.1 htexts⟩
  · rintro ⟨outputs, e', hexecute⟩
    obtain ⟨ran, hran, hr⟩ := (Option.any_eq_true ..).1 hwrapper
    obtain rfl := Option.some.inj (hran.symm.trans hexecute)
    exact absurd hr (by simp [Except.toOption])

end CallFlow
