import CallFlow.Proofs.Frame
import CallFlow.Proofs.Inputs
import CallFlow.Proofs.Reuse

/-!
# Invariants of terminals

Whatever a run does to a terminal it does by writes that the type allows, by reading it and by
resetting it.  So a property of terminals that unwritten ones have and that each of the three
keeps (`Terminal.Invariant`) is one of all terminals at all times: every step of data flow keeps
it (`Flow.keeps_settle`, `Flow.keeps_finish`, …), the execution of a call does
(`Context.all_execute`), and so do visits and walks (`Walk.all_visit`, `Walk.all_steps`), with the
bodies inside of them.
-/

namespace CallFlow

/-- A property of terminals that unwritten ones have and that no operation takes away.  `checked`
says whether terminals of calls are checked. -/
structure Terminal.Invariant (checked : Bool) (P : Terminal → Prop) : Prop where
  ofPort : ∀ site port name valueType elementwise,
    P (.ofPort site port name valueType elementwise checked)
  ofVariable : ∀ name, P (.ofVariable name)
  reset : ∀ {t}, P t → P t.reset
  consume : ∀ {t}, P t → P t.consume
  write : ∀ {t t' strategy v}, P t → t.write strategy v = .ok t' → P t'

variable {checked : Bool} {P : Terminal → Prop}

theorem Terminal.Invariant.writeAll (hP : Invariant checked P) {t : Terminal} (ht : P t)
    (writes : List (Option Strategy × Value)) : P (t.writeAll writes).2 := by
  induction writes generalizing t with
  | nil => exact ht
  | cons w rest ih =>
      obtain ⟨strategy, v⟩ := w
      unfold Terminal.writeAll
      split
      · rename_i t' hwrite
        exact ih (hP.write ht hwrite)
      · exact ht

/-! ## The terminals of a call -/

/-- Binding an input writes the terminal with its name, which has to be there. -/
theorem Engine.bindInputs_cons_eq_ok {d : Description} {ts ts' : Terminals}
    {name : String} {v : Value}
    {rest : List (String × Value)} (h : bindInputs d ts ((name, v) :: rest) = .ok ts') :
    ∃ ts₁, ts.writeInput? name v = some (.ok ts₁) ∧ bindInputs d ts₁ rest = .ok ts' := by
  rw [bindInputs] at h
  split at h
  · exact absurd h (by simp)
  · exact absurd h (by simp)
  · rename_i ts₁ hwrite
    exact ⟨ts₁, hwrite, h⟩

theorem Engine.reset_bindInputs {d : Description} {ts ts' : Terminals}
    {inputs : List (String × Value)}
    (h : bindInputs d ts inputs = .ok ts') : ts'.reset = ts.reset := by
  induction inputs generalizing ts with
  | nil => rw [Except.ok.inj h]
  | cons input rest ih =>
      obtain ⟨ts₁, hwrite, hrest⟩ := bindInputs_cons_eq_ok h
      exact (ih hrest).trans (Terminals.reset_writeInput? hwrite)

namespace Terminals

/-- All terminals of the call have the property. -/
structure All (P : Terminal → Prop) (ts : Terminals) : Prop where
  params : ∀ t ∈ ts.params, P t
  receiver : ∀ t, ts.receiver = some t → P t
  output : P ts.output
  selfOutput : ∀ t, ts.selfOutput = some t → P t

variable {ts : Terminals} {d : Description} {site : Site} {port : Port} {t : Terminal}

theorem All.get? (h : ts.All P) (ht : ts.get? port = some t) : P t := by
  cases port with
  | param i => exact h.params t (List.mem_of_getElem? ht)
  | receiver => exact h.receiver t ht
  | output =>
      obtain rfl := Option.some.inj ht
      exact h.output
  | selfOutput => exact h.selfOutput t ht

theorem All.set (h : ts.All P) (ht : P t) (port : Port) : (ts.set port t).All P := by
  cases port with
  | param i =>
      refine { h with params := fun u hu => ?_ }
      rcases List.mem_or_eq_of_mem_set hu with hu | rfl
      · exact h.params u hu
      · exact ht
  | receiver => exact { h with receiver := fun u hu => Option.some.inj hu ▸ ht }
  | output => exact { h with output := ht }
  | selfOutput => exact { h with selfOutput := fun u hu => Option.some.inj hu ▸ ht }

theorem All.mapInputs (h : ts.All P) {f : Terminal → Terminal} (hf : ∀ {t}, P t → P (f t)) :
    (ts.mapInputs f).All P := by
  refine { h with params := fun u hu => ?_, receiver := fun u hu => ?_ }
  · obtain ⟨t, ht, rfl⟩ := List.mem_map.1 hu
    exact hf (h.params t ht)
  · obtain ⟨t, ht, rfl⟩ := Option.map_eq_some_iff.1 hu
    exact hf (h.receiver t ht)

variable (hP : Terminal.Invariant checked P)
include hP

theorem All.consumeInputs (h : ts.All P) : ts.consumeInputs.All P := h.mapInputs hP.consume

theorem All.resetOutputs (h : ts.All P) : ts.resetOutputs.All P := by
  refine { h with output := hP.reset h.output, selfOutput := fun u hu => ?_ }
  obtain ⟨t, ht, rfl⟩ := Option.map_eq_some_iff.1 hu
  exact hP.reset (h.selfOutput t ht)

theorem All.reset (h : ts.All P) : ts.reset.All P :=
  All.resetOutputs hP (h.mapInputs hP.reset)

theorem all_ofDescription (d : Description) (site : Site) :
    (ofDescription d site checked).All P where
  params t ht := by
    change t ∈ ofParams site checked 0 d.params at ht
    have haux : ∀ (ps : List Param) (i : Nat), ∀ t ∈ ofParams site checked i ps, P t := by
      intro ps
      induction ps with
      | nil => exact fun i t ht => absurd ht (by simp [ofParams])
      | cons p rest ih =>
          intro i t ht
          rcases List.mem_cons.1 ht with rfl | ht
          · exact hP.ofPort ..
          · exact ih (i + 1) t ht
    exact haux d.params 0 t ht
  receiver t ht := by
    obtain ⟨r, -, rfl⟩ := Option.map_eq_some_iff.1 ht
    exact hP.ofPort ..
  output := hP.ofPort ..
  selfOutput t ht := by
    obtain ⟨o, -, rfl⟩ := Option.map_eq_some_iff.1 ht
    exact hP.ofPort ..

theorem All.assemble (h : ts.All P) (d : Description) (site : Site) :
    (ts.assemble d site).2.All P := by
  unfold Terminals.assemble
  split
  · exact h
  · exact h.consumeInputs hP

theorem all_prepareOne {p : Param} {t' : Terminal} (ht : P t) (h : prepareOne d site p t = .ok t') :
    P t' := by
  unfold prepareOne at h
  split at h
  · rwa [← Except.ok.inj h]
  · split at h
    · exact hP.write ht h
    · exact absurd h (by simp)

theorem all_prepareParams (ps : List Param) {us : List Terminal} (hus : ∀ t ∈ us, P t) :
    ∀ t ∈ (prepareParams d site ps us).2, P t := by
  induction ps generalizing us with
  | nil => cases us <;> exact hus
  | cons p ps ih =>
      cases us with
      | nil => exact hus
      | cons u us =>
          rw [prepareParams]
          cases hone : prepareOne d site p u with
          | error fault => exact hus
          | ok u' =>
              intro t ht
              rcases List.mem_cons.1 ht with rfl | ht
              · exact all_prepareOne hP (hus u (by simp)) hone
              · exact ih (fun v hv => hus v (List.mem_cons_of_mem _ hv)) t ht

theorem All.prepare (h : ts.All P) (d : Description) (site : Site) :
    (ts.prepare d site).2.All P := by
  have hparams : ∀ t ∈ (prepareParams d site d.params ts.params).2, P t :=
    all_prepareParams hP d.params h.params
  unfold Terminals.prepare
  split
  · rename_i fault params hprepared
    rw [hprepared] at hparams
    exact { h with params := hparams }
  · rename_i params hprepared
    rw [hprepared] at hparams
    split
    · rename_i p u hp hu
      split
      · rename_i u' hone
        exact { h with
          params := hparams
          receiver := fun v hv => Option.some.inj hv ▸ all_prepareOne hP (h.receiver u hu) hone }
      · exact { h with params := hparams }
    · exact { h with params := hparams }

theorem All.publish (h : ts.All P) (v : Value) (receiver : Option Value) :
    (ts.publish v receiver).2.All P := by
  unfold Terminals.publish
  split
  · exact h
  · rename_i output houtput
    have hout : P output := hP.write h.output houtput
    simp only []
    split
    · exact { h with output := hout }
    · rename_i t ht
      split
      · exact { h with output := hout }
      · rename_i t' ht'
        exact { h with
          output := hout
          selfOutput := fun u hu => Option.some.inj hu ▸ hP.write (h.selfOutput t ht) ht' }

theorem All.afterBody (h : ts.All P) (r : Except RunFault Unit) : (ts.afterBody r).All P := by
  cases r with
  | ok _ => exact h.consumeInputs hP
  | error _ => exact h

theorem All.bindInputs {ts' : Terminals} {inputs : List (String × Value)} (h : ts.All P)
    (hbind : Engine.bindInputs d ts inputs = .ok ts') : ts'.All P := by
  induction inputs generalizing ts with
  | nil =>
      obtain rfl := Except.ok.inj hbind
      exact h
  | cons input rest ih =>
      obtain ⟨ts₁, hwrite, hrest⟩ := Engine.bindInputs_cons_eq_ok hbind
      rcases writeInput?_eq_ok hwrite with ⟨i, t, t', ht, ht', rfl⟩ | ⟨t, t', ht, ht', rfl⟩
      · have hset : ∀ u ∈ ts.params.set i t', P u := fun u hu => by
          rcases List.mem_or_eq_of_mem_set hu with hu | rfl
          · exact h.params u hu
          · exact hP.write (h.params t (List.mem_of_getElem? ht)) ht'
        refine ih ?_ hrest
        exact ⟨hset, h.receiver, h.output, h.selfOutput⟩
      · have hset : ∀ u, some t' = some u → P u :=
          fun u hu => Option.some.inj hu ▸ hP.write (h.receiver t ht) ht'
        refine ih ?_ hrest
        exact ⟨h.params, hset, h.output, h.selfOutput⟩

end Terminals

/-! ## Scenes -/

/-- All terminals of the frame have the property, those of variables included. -/
structure Frame.All (P : Terminal → Prop) (f : Frame) : Prop where
  calls : ∀ id c, Assoc.find? f.calls id = some c → c.terminals.All P
  vars : ∀ name t, Assoc.find? f.vars name = some t → P t

/-- All terminals of the scene have the property, those of the boundary included. -/
structure Scene.All (P : Terminal → Prop) (s : Scene) : Prop where
  frame : s.frame.All P
  boundary : ∀ ts, s.boundary = some ts → ts.All P

section

variable (hP : Terminal.Invariant checked P)
include hP

theorem Frame.All.reset {f : Frame} (h : f.All P) : f.reset.All P where
  calls id c hc := by
    simp only [Frame.reset, Assoc.find?_mapValues] at hc
    obtain ⟨c', hc', rfl⟩ := Option.map_eq_some_iff.1 hc
    exact (h.calls id c' hc').reset hP
  vars name t ht := by
    simp only [Frame.reset, Assoc.find?_mapValues] at ht
    obtain ⟨t', ht', rfl⟩ := Option.map_eq_some_iff.1 ht
    exact hP.reset (h.vars name t' ht')

/-- A frame that was set up has unwritten terminals only. -/
theorem Frame.all_ofGraph {g : Graph} {id : CompositionId} {f : Frame}
    (h : Frame.ofGraph g id checked = .ok f) : f.All P where
  calls call applied hcall := by
    obtain ⟨c, used, decl, d, -, -, -, -, -, -, rfl⟩ := Frame.exists_description h hcall
    exact Terminals.all_ofDescription hP d _
  vars name t ht := by
    obtain ⟨c, used, -, -, -, -, -, hvars, -⟩ := Frame.ofGraph_eq_ok h
    rw [hvars] at ht
    obtain ⟨n, -, hn⟩ := List.mem_map.1 (Assoc.mem_of_find?_eq_some ht)
    obtain ⟨-, rfl⟩ := Prod.mk.inj hn
    exact hP.ofVariable n

theorem Scene.All.terminal? {s : Scene} (h : s.All P) {slot : Slot} {t : Terminal}
    (ht : s.terminal? slot = some t) : P t := by
  cases slot with
  | call id port =>
      obtain ⟨c, hc, hport⟩ := Option.bind_eq_some_iff.1 ht
      exact (h.frame.calls id c hc).get? hport
  | boundary port =>
      obtain ⟨ts, hts, hport⟩ := Option.bind_eq_some_iff.1 ht
      exact (h.boundary ts hts).get? hport
  | «variable» name =>
      obtain rfl := Option.some.inj ht
      cases hvar : Assoc.find? s.frame.vars name with
      | none => exact hP.ofVariable name
      | some t => exact h.frame.vars name t hvar

omit hP in
theorem Scene.All.put {s : Scene} (h : s.All P) {t : Terminal} (ht : P t) (slot : Slot) :
    (s.put slot t).All P := by
  cases slot with
  | call id port =>
      refine ⟨⟨fun id' c hc => ?_, h.frame.vars⟩, h.boundary⟩
      simp only [Scene.put, Assoc.find?_modify] at hc
      split at hc
      · obtain ⟨c', hc', rfl⟩ := Option.map_eq_some_iff.1 hc
        exact (h.frame.calls id' c' hc').set ht port
      · exact h.frame.calls id' c hc
  | boundary port =>
      refine ⟨h.frame, fun ts hts => ?_⟩
      obtain ⟨ts', hts', rfl⟩ := Option.map_eq_some_iff.1 hts
      exact (h.boundary ts' hts').set ht port
  | «variable» name =>
      refine ⟨⟨h.frame.calls, fun name' u hu => ?_⟩, h.boundary⟩
      simp only [Scene.put, Assoc.find?_insert] at hu
      split at hu
      · obtain rfl := Option.some.inj hu
        exact ht
      · exact h.frame.vars name' u hu

/-- **A write into a scene keeps an invariant**, whether or not it succeeds. -/
theorem Scene.All.write {s : Scene} (h : s.All P) (slot : Slot)
    (writes : List (Option Strategy × Value)) : (s.write slot writes).2.All P := by
  cases writes with
  | nil => exact h
  | cons w rest =>
      unfold Scene.write
      cases ht : s.terminal? slot with
      | none => exact h
      | some t => exact h.put (hP.writeAll (h.terminal? hP ht) _) slot

end

/-! ## Data flow -/

namespace Flow

variable {α β : Type}

/-- The step keeps a property of scenes, whether or not it succeeds. -/
def Keeps (Q : Scene → Prop) (x : Flow α) : Prop := ∀ s, Q s → Q (x.run s).2

/-- A property of scenes that every write keeps, and every switch of authority. -/
structure Stable (Q : Scene → Prop) : Prop where
  write : ∀ {s} slot writes, Q s → Q (s.write slot writes).2
  complete : ∀ {s} call, Q s → Q (s.complete call)

variable {Q : Scene → Prop}

theorem keeps_pure (a : α) : Keeps Q (pure a) := fun _ h => h

theorem keeps_bind {x : Flow α} {f : α → Flow β} (hx : Keeps Q x) (hf : ∀ a, Keeps Q (f a)) :
    Keeps Q (x >>= f) := by
  intro s hs
  have hleft := hx s hs
  rw [run_bind]
  split
  · rename_i a s₁ h
    rw [h] at hleft
    exact hf a s₁ hleft
  · rename_i fault s₁ h
    rwa [h] at hleft

theorem keeps_look_bind {g : Scene → Except RunFault α} {f : α → Flow β} (hf : ∀ a, Keeps Q (f a)) :
    Keeps Q (look g >>= f) := keeps_bind (fun _ h => h) hf

theorem keeps_get_bind {f : Scene → Flow β} (hf : ∀ s, Keeps Q (f s)) : Keeps Q (get >>= f) :=
  keeps_bind (fun _ h => h) hf

variable (hQ : Stable Q)
include hQ

theorem keeps_write (slot : Slot) (writes : List (Option Strategy × Value)) :
    Keeps Q (write slot writes) := fun _ h => hQ.write slot writes h

theorem keeps_writeGroup (slot : Slot) (group : List Mapping) : Keeps Q (writeGroup slot group) :=
  keeps_look_bind fun _ => keeps_write hQ slot _

theorem keeps_ingest (slot : Slot) : Keeps Q (ingest slot) := by
  refine keeps_look_bind fun group => ?_
  cases group with
  | none => exact keeps_pure false
  | some group => exact keeps_writeGroup hQ slot group

theorem keeps_ingestAll (slots : List Slot) : Keeps Q (ingestAll slots) := by
  induction slots with
  | nil => exact keeps_pure ()
  | cons slot rest ih => exact keeps_bind (keeps_ingest hQ slot) fun _ => ih

theorem keeps_refresh (fuel : Nat) (pending refreshed : List String) :
    Keeps Q (refresh fuel pending refreshed) := by
  induction fuel generalizing pending refreshed with
  | zero => exact keeps_pure _
  | succ fuel ih =>
    cases pending with
    | nil => exact keeps_pure _
    | cons name pending =>
      rw [refresh]
      split
      · exact ih pending refreshed
      · refine keeps_get_bind fun s => ?_
        simp only []
        split
        · exact ih pending _
        · exact keeps_bind (keeps_writeGroup hQ _ _) fun written =>
            keeps_bind (ih _ _) fun _ => keeps_pure _

theorem keeps_propagate (changed : List String) : Keeps Q (propagate changed) :=
  keeps_get_bind fun _ => keeps_refresh hQ _ _ _

theorem keeps_plant (l : List (String × List (Option Strategy × Value))) : Keeps Q (plant l) := by
  induction l with
  | nil => exact keeps_pure _
  | cons entry rest ih =>
      exact keeps_bind (keeps_write hQ _ _) fun _ => keeps_bind ih fun _ => keeps_pure _

theorem keeps_seed : Keeps Q seed :=
  keeps_look_bind fun l => keeps_bind (keeps_plant hQ l) fun _ =>
    keeps_bind (keeps_propagate hQ _) fun _ => keeps_pure _

theorem keeps_pushAll (values : List (Slot × Value)) : Keeps Q (pushAll values) := by
  induction values with
  | nil => exact keeps_pure _
  | cons entry rest ih =>
      obtain ⟨slot, v⟩ := entry
      refine keeps_bind (keeps_write hQ slot _) fun _ => keeps_bind ih fun _ => ?_
      cases slot <;> exact keeps_pure _

theorem keeps_feed (names : List String) : Keeps Q (feed names) := by
  induction names with
  | nil => exact keeps_pure _
  | cons name rest ih =>
      exact keeps_bind (keeps_ingest hQ _) fun _ => keeps_bind ih fun _ => keeps_pure _

theorem keeps_settle (call : CallId) : Keeps Q (settle call) :=
  keeps_bind (fun _ h => hQ.complete call h) fun _ => keeps_look_bind fun values =>
    keeps_bind (keeps_pushAll hQ values) fun _ => keeps_get_bind fun _ =>
      keeps_bind (keeps_feed hQ _) fun _ => keeps_bind (keeps_propagate hQ _) fun _ => keeps_pure _

theorem keeps_finish : Keeps Q finish := by
  refine keeps_bind (keeps_bind (keeps_ingest hQ _) fun _ => keeps_get_bind fun _ => ?_) fun _ =>
    keeps_get_bind fun s => ?_
  · split
    · exact keeps_bind (keeps_write hQ _ _) fun _ => keeps_pure _
    · exact keeps_pure _
  · split
    · exact keeps_pure _
    · refine keeps_bind (keeps_ingest hQ _) fun _ => ?_
      split
      · exact keeps_get_bind fun _ => keeps_bind (keeps_write hQ _ _) fun _ => keeps_pure _
      · exact keeps_pure _

end Flow

/-- **Data flow keeps an invariant of terminals.** -/
theorem Terminal.Invariant.stable (hP : Invariant checked P) : Flow.Stable (Scene.All P) where
  write slot writes h := h.write hP slot writes
  complete _ h := ⟨⟨h.frame.calls, h.frame.vars⟩, h.boundary⟩

/-! ## Instances and walks -/

/-- All terminals of the instance have the property, those of the bodies that it keeps included. -/
inductive Instance.All (P : Terminal → Prop) : Instance → Prop where
  | mk {f : Frame} {handles : List (CallId × Callable)} {bodies : List (CallId × Instance)}
      (frame : f.All P) (kept : ∀ id body, Assoc.find? bodies id = some body → All P body) :
      All P (.mk f handles bodies)

/-- All terminals of the active call have the property, and those of the body that is kept of it. -/
structure Active.All (P : Terminal → Prop) (a : Active) : Prop where
  terminals : a.call.terminals.All P
  body : ∀ body, a.body = some body → body.All P

/-- All terminals of the walk have the property, those of its boundary and of the bodies that it
keeps included. -/
structure Walk.All (P : Terminal → Prop) (w : Walk) : Prop where
  scene : w.scene.All P
  bodies : ∀ id body, Assoc.find? w.bodies id = some body → body.All P

/-- Runs of bodies keep a property of terminals. -/
def Runner.Keeps (P : Terminal → Prop) (run : Runner) : Prop :=
  ∀ {depth body ts log r ran}, body.All P → ts.All P → run depth body ts log = some (r, ran) →
    ran.body.All P ∧ ran.terminals.All P

theorem Walk.All.toInstance {w : Walk} (h : w.All P) : w.toInstance.All P :=
  .mk h.scene.frame h.bodies

theorem Instance.All.begin {inst : Instance} (h : inst.All P) {boundary : Option Terminals}
    (hboundary : ∀ ts, boundary = some ts → ts.All P) (log : Log) :
    (Walk.begin inst boundary log).All P := by
  cases h with
  | mk hframe hbodies => exact ⟨⟨hframe, hboundary⟩, hbodies⟩

section

variable (hP : Terminal.Invariant checked P)
include hP

theorem Instance.All.reset {inst : Instance} (h : inst.All P) : inst.reset.All P := by
  induction h with
  | @mk f handles bodies hframe _ ih =>
      refine .mk (hframe.reset hP) fun id body hbody => ?_
      rw [find?_resetBodies] at hbody
      obtain ⟨body', hbody', rfl⟩ := Option.map_eq_some_iff.1 hbody
      exact ih id body' hbody'

theorem Instance.all_ofGraph {g : Graph} {id : CompositionId} {inst : Instance}
    (h : ofGraph g id checked = .ok inst) : inst.All P := by
  obtain ⟨f, hf, rfl⟩ := ofGraph_eq_ok h
  exact .mk (Frame.all_ofGraph hP hf) fun id body hbody => absurd hbody (by simp)

theorem Frame.All.bindVariables {f f' : Frame} {inputs : List (String × Value)} (h : f.All P)
    (hbind : Engine.bindVariables f inputs = .ok f') : f'.All P := by
  induction inputs generalizing f with
  | nil =>
      obtain rfl := Except.ok.inj hbind
      exact h
  | cons input rest ih =>
      obtain ⟨name, v⟩ := input
      obtain ⟨t, t', ht, ht', hrest⟩ := Engine.bindVariables_cons_eq_ok hbind
      have hset : ∀ name' u, Assoc.find? (Assoc.insert f.vars name t') name' = some u → P u := by
        intro name' u hu
        rw [Assoc.find?_insert] at hu
        split at hu
        · obtain rfl := Option.some.inj hu
          exact hP.write (h.vars name t ht) ht'
        · exact h.vars name' u hu
      refine ih ?_ hrest
      exact ⟨h.calls, hset⟩

end

namespace Context

variable {ctx : Context} (hP : Terminal.Invariant ctx.checked P)
include hP

theorem all_invoke {d : Description} {a a' : Active} {r : Except RunFault Unit} (h : a.All P)
    (hinvoke : ctx.invoke d a = (r, a')) : a'.All P := by
  have hassembled := h.terminals.assemble hP d a.call.site
  cases invokes_of_invoke hinvoke with
  | unassembled hassemble | unbound hassemble _ | exhausted hassemble _ _
  | failed hassemble _ _ _ =>
      rw [hassemble] at hassembled
      exact ⟨hassembled, h.body⟩
  | @answered _ _ _ _ _ v receiver _ hassemble _ _ hpublish =>
      rw [hassemble] at hassembled
      have hpublished := hassembled.publish hP v receiver
      rw [hpublish] at hpublished
      exact ⟨hpublished, h.body⟩

theorem all_bodyOf {id : CompositionId} {kept : Option Instance} {body : Instance}
    (hkept : ∀ inst, kept = some inst → inst.All P) (h : ctx.bodyOf id kept = .ok body) :
    body.All P := by
  cases kept with
  | none => exact Instance.all_ofGraph hP h
  | some inst =>
      obtain rfl := Except.ok.inj h
      exact hkept inst rfl

/-- **The execution of a call keeps an invariant of terminals**, if runs of bodies do. -/
theorem all_execute {run : Runner} (hrun : run.Keeps P) {depth : Nat} {a a' : Active}
    {r : Except RunFault Unit} (h : a.All P) (hexecute : ctx.execute run depth a = some (r, a')) :
    a'.All P := by
  cases performs_of_execute hexecute with
  | unknown _ => exact h
  | invoked _ _ hinvoke => exact all_invoke hP h hinvoke
  | @unprepared d _ _ _ _ _ hprepare | @notSetUp d _ _ _ _ _ hprepare _ =>
      have hprepared := h.terminals.prepare hP d a.call.site
      rw [hprepare] at hprepared
      exact ⟨hprepared, h.body⟩
  | @ran d _ _ _ _ _ _ _ hprepare hset hran =>
      have hprepared := h.terminals.prepare hP d a.call.site
      rw [hprepare] at hprepared
      obtain ⟨hleft, hterminals⟩ := hrun ((all_bodyOf hP h.body hset).reset hP)
        (hprepared.resetOutputs hP) hran
      refine ⟨hterminals.afterBody hP r, fun inst hinst => ?_⟩
      obtain rfl := Option.some.inj hinst
      exact hleft

end Context

namespace Walk

variable {ctx : Context} (hP : Terminal.Invariant ctx.checked P)

theorem All.flow {w w' : Walk} (h : w.All P) {α : Type} {step : Flow α}
    (hstep : Flow.Keeps (Scene.All P) step) {r : Except RunFault α}
    (hflow : w.flow step = (r, w')) :
    w'.All P := by
  obtain ⟨-, rfl⟩ := Prod.mk.inj hflow
  exact ⟨hstep _ h.scene, h.bodies⟩

theorem All.keep {w : Walk} (h : w.All P) {a : Active} (ha : a.All P) (id : CallId) :
    (w.keep id a).All P := by
  refine ⟨⟨⟨fun id' c hc => ?_, h.scene.frame.vars⟩, h.scene.boundary⟩, fun id' body hbody => ?_⟩
  · simp only [Walk.keep, Assoc.find?_modify] at hc
    split at hc
    · obtain ⟨c', -, rfl⟩ := Option.map_eq_some_iff.1 hc
      exact ha.terminals
    · exact h.scene.frame.calls id' c hc
  · simp only [Walk.keep] at hbody
    split at hbody
    · rename_i kept hkept
      rw [Assoc.find?_insert] at hbody
      split at hbody
      · obtain rfl := Option.some.inj hbody
        exact ha.body kept hkept
      · exact h.bodies id' body hbody
    · exact h.bodies id' body hbody

include hP

theorem All.afterCall {w w' : Walk} (h : w.All P) {depth : Nat} {id : CallId} {call : AppliedCall}
    {result : Except RunFault Unit} {r : Except RunFault (Option CallId)}
    (hafter : w.afterCall depth id call result = (r, w')) : w'.All P := by
  rcases afterCall_cases hafter with ⟨-, -, settled, s', hsettle, rfl, -⟩ | ⟨-, rfl⟩
  · have hsettled := Flow.keeps_settle hP.stable id w.scene h.scene
    rw [hsettle] at hsettled
    exact ⟨hsettled, h.bodies⟩
  · exact ⟨h.scene, h.bodies⟩

/-- The call of a visit, when its inputs are ingested. -/
theorem All.active {w : Walk} (h : w.All P) {slots : List Slot}
    {r : Except RunFault Unit} {s : Scene}
    (hingest : (Flow.ingestAll slots).run w.scene = (r, s)) :
    s.All P ∧ ∀ id call log, Assoc.find? s.frame.calls id = some call →
      Active.All P ⟨call, Assoc.find? w.handles id, Assoc.find? w.bodies id, log⟩ := by
  have hs := Flow.keeps_ingestAll hP.stable slots w.scene h.scene
  rw [hingest] at hs
  exact ⟨hs, fun id call log hcall => ⟨hs.frame.calls id call hcall, h.bodies id⟩⟩

theorem all_visit {run : Runner} (hrun : run.Keeps P) {depth : Nat} {id : CallId} {w w' : Walk}
    {r : Except RunFault (Option CallId)} (h : w.All P)
    (hvisit : visit ctx run depth id w = some (r, w')) :
    w'.All P := by
  rcases visit_cases hvisit with ⟨fault, -, hrefuses⟩ | ⟨v, -, hexecutes⟩
  · cases hrefuses with
    | inputs hingest => exact ⟨(h.active hP hingest).1, h.bodies⟩
    | missing hingest _ => exact ⟨(h.active hP hingest).1, h.bodies⟩
  · obtain ⟨hingest, hfound, hexecute, -, -, hafter⟩ := hexecutes
    rename_i s call result a
    obtain ⟨hs, hactive⟩ := h.active hP hingest
    have ha := Context.all_execute hP hrun (hactive _ call _ hfound) hexecute
    have hw : Walk.All P { w with scene := s, log := w.log.visit v.call } := ⟨hs, h.bodies⟩
    exact (hw.keep ha v.call).afterCall hP hafter

theorem all_around {walk : Option CallId → Walk → Fueled Unit Walk}
    (hwalk : ∀ {next w r w'}, walk next w = some (r, w') → w.All P → w'.All P) {w w' : Walk}
    {r : Except RunFault Unit} (h : around walk w = some (r, w')) (hw : w.All P) : w'.All P := by
  have hseeded := Flow.keeps_seed hP.stable w.scene hw.scene
  rcases around_eq_some h with ⟨fault, s, hseed, -, rfl⟩ | ⟨s, r₁, w₁, hseed, hsteps, hend⟩
  · rw [hseed] at hseeded
    exact ⟨hseeded, hw.bodies⟩
  · rw [hseed] at hseeded
    have hwalked : w₁.All P := hwalk hsteps ⟨hseeded, hw.bodies⟩
    rcases hend with ⟨-, rfl, -⟩ | ⟨s₁, -, -, hfinish, rfl⟩
    · exact hwalked
    · have hfinished := Flow.keeps_finish hP.stable w₁.scene hwalked.scene
      rw [hfinish] at hfinished
      exact ⟨hfinished, hwalked.bodies⟩

theorem keeps_of_all {walk : Nat → Option CallId → Walk → Fueled Unit Walk}
    (hwalk : ∀ {depth next w r w'}, walk depth next w = some (r, w') → w.All P → w'.All P) :
    (runner walk).Keeps P := by
  intro depth body ts log r ran hbody hts h
  obtain ⟨w, hrun, rfl⟩ := runner_eq_some h
  have hbegin : (begin body (some ts) log).All P :=
    hbody.begin (fun ts' hts' => Option.some.inj hts' ▸ hts) log
  have hw := all_around hP hwalk hrun hbegin
  refine ⟨hw.toInstance, ?_⟩
  cases hboundary : w.scene.boundary with
  | none => exact hts
  | some ts' => exact hw.scene.boundary ts' hboundary

/-- **Walks keep an invariant of terminals**, at every depth. -/
theorem all_steps {fuel depth : Nat} {next : Option CallId} {w w' : Walk} {r : Except RunFault Unit}
    (h : steps ctx fuel depth next w = some (r, w')) : w.All P → w'.All P :=
  steps_induction (R := fun _ w w' => w.All P → w'.All P) (fun _ _ hw => hw)
    (fun h h' hw => h' (h hw)) (fun ih hvisit hw => all_visit hP (keeps_of_all hP ih) hw hvisit) h

/-- **So do runs of bodies.** -/
theorem keeps_runner (fuel : Nat) : (runner (steps ctx fuel)).Keeps P :=
  keeps_of_all hP (all_steps hP)

end Walk

end CallFlow
