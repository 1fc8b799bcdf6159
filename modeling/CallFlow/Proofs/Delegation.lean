import CallFlow.Proofs.Assoc
import CallFlow.Proofs.Relocation

/-!
# Bodies that delegate

A body with one call and a mapping for each port of it, `Delegation`, passes the inputs on to the
call and the answer back.

* **Mappings.**  Direct mappings into slots of their own are in groups of their own
  (`Wiring.build_of_nodup`), and such a mapping writes the value that it reads
  (`Flow.ingest_passing`).
* **Inputs.**  Before the call all inputs of the boundary are copied to it, so that its terminals
  are those of the boundary at another site (`Delegation.ingest_inputs`).
* **Results.**  Behind the call its outputs are copied to the boundary (`Delegation.run_finish`).

Both together say when a run of the body succeeds, and with which outputs
(`Delegation.runner_of_gives`, `Delegation.runner_of_not_gives`).
-/

namespace CallFlow

/-! ## Direct mappings without conflicts -/

/-- The target of a mapping alone. -/
def Target.single (m : Mapping) : Target := ⟨[(m.priority, [m])], none⟩

/-- A mapping of a whole value from one place to another. -/
def Mapping.passing (source target : Endpoint) : Mapping := ⟨source, none, target, none, none⟩

namespace Wiring

/-- Mappings into slots of their own are each alone in a group. -/
theorem groupAll_of_nodup {targets : Assoc Slot Target} {placed : List (Slot × Mapping)}
    (hnodup : (Assoc.keys targets ++ placed.map (·.1)).Nodup)
    (hdirect : ∀ p ∈ placed, p.2.isAccumulating = false) :
    groupAll targets placed = targets ++ placed.map fun p => (p.1, .single p.2) := by
  induction placed generalizing targets with
  | nil => simp [groupAll]
  | cons p rest ih =>
      obtain ⟨slot, m⟩ := p
      have hnew : slot ∉ Assoc.keys targets := by
        intro hslot
        exact (List.nodup_append.1 hnodup).2.2 slot hslot slot (by simp) rfl
      have hnone : Assoc.find? targets slot = none := Assoc.find?_eq_none_iff.2 hnew
      have hadd : addTarget targets slot m = targets ++ [(slot, .single m)] := by
        rw [addTarget, hnone, Assoc.insert_of_not_mem hnew]
        rfl
      have hnodup' :
          (Assoc.keys (targets ++ [(slot, Target.single m)]) ++ rest.map (·.1)).Nodup := by
        simpa [Assoc.keys] using hnodup
      have hm : m.isAccumulating = false := hdirect (slot, m) (by simp)
      rw [groupAll, hm, if_neg (by simp), hadd,
        ih hnodup' fun p hp => hdirect p (List.mem_cons_of_mem _ hp)]
      simp

theorem fault?_of_single {placed : List (Slot × Mapping)}
    (hdirect : ∀ p ∈ placed, p.2.isDirect = true) :
    fault? [] (placed.map fun p => (p.1, Target.single p.2)) = none := by
  induction placed with
  | nil => rfl
  | cons p rest ih =>
      have hp : p.2.isDirect = true := hdirect p (by simp)
      have hgroup : targetFault? p.1 false (Target.single p.2).groups = none := by
        have hstrategy : p.2.targetStrategy = none := Option.isNone_iff_eq_none.1 hp
        simp [Target.single, targetFault?, groupFault?, hp, hstrategy, repeated?]
      rw [List.map_cons, fault?]
      simp only [List.contains_nil, hgroup]
      exact ih fun q hq => hdirect q (List.mem_cons_of_mem _ hq)

/-- Direct mappings into slots of their own do not get in each other's way. -/
theorem build_of_nodup {composition : CompositionId} {placed : List (Slot × Mapping)}
    (hnodup : (placed.map (·.1)).Nodup) (hslots : ∀ p ∈ placed, slotOf p.2 = .ok p.1)
    (hdirect : ∀ p ∈ placed, p.2.isDirect = true) :
    build composition (placed.map (·.2)) = .ok (ofTargets composition (placed.map (·.2))
      (placed.map fun p => (p.1, .single p.2))
      (by simpa [Assoc.keys, Function.comp_def] using hnodup)) := by
  have hacc : ∀ p ∈ placed, p.2.isAccumulating = false := by
    intro p hp
    have hstrategy : p.2.targetStrategy = none := Option.isNone_iff_eq_none.1 (hdirect p hp)
    simp [Mapping.isAccumulating, hstrategy]
  have hmapM : (placed.map (·.2)).mapM slotOf = .ok (placed.map (·.1)) := by
    rw [mapM_eq_ok_iff, List.forall₂_map_left_iff, List.forall₂_map_right_iff, List.forall₂_same]
    exact hslots
  have hzip : (placed.map (·.1)).zip (placed.map (·.2)) = placed := by
    rw [List.zip_map']
    simp
  have happended : (placed.filter fun p => p.2.isAccumulating) = [] := by
    rw [List.filter_eq_nil_iff]
    intro p hp
    simp [hacc p hp]
  have hgroupAll : groupAll [] placed = placed.map fun p => (p.1, .single p.2) :=
    groupAll_of_nodup (by simpa [Assoc.keys] using hnodup) hacc
  simp only [build, hmapM, bind, Except.bind, hzip, happended, hgroupAll, List.map_nil,
    fault?_of_single hdirect]

end Wiring

/-- A mapping alone that passes on a value that its target admits writes that value. -/
theorem Flow.ingest_passing {s : Scene} {slot : Slot} {source target : Endpoint} {v : Value}
    {t : Terminal}
    (hgroup : s.frame.wiring.authoritative slot = .ok (some [.passing source target]))
    (hsource : s.peek source = some v) (ht : s.terminal? slot = some t)
    (hcheck : t.check none v = .ok ()) :
    (ingest slot).run s = (.ok true, s.put slot (t.holding v)) := by
  have hread : s.readGroup [.passing source target] = .ok [(none, v)] := by
    simp [Scene.readGroup, Scene.read, Mapping.passing, hsource, bind, Except.bind,
      pure, Except.pure]
  have hwrite : t.writeAll [(none, v)] = (.ok (), t.holding v) := by
    simp only [Terminal.writeAll, Terminal.write_none_eq_ok_iff.2 ⟨hcheck, rfl⟩]
  rw [run_ingest, hgroup]
  simp only [run_writeGroup, hread, Scene.write, ht, hwrite]
  rfl

/-- Nothing is refreshed where nothing has changed. -/
theorem Flow.run_propagate_nil (s : Scene) : (propagate []).run s = (.ok [], s) := by
  rw [propagate, run_bind, run_get]
  rfl

/-- Terminals whose ports can all be told apart are given by what is at each port. -/
theorem Terminals.ext_get? {ts ts' : Terminals} (hlength : ts.params.length = ts'.params.length)
    (hports : ts.params.length ≤ 65536) (h : ∀ port, ts.get? port = ts'.get? port) : ts = ts' := by
  have hparams : ts.params = ts'.params := by
    refine List.ext_getElem? fun i => ?_
    by_cases hi : i < 65536
    · have hport := h (.param (UInt16.ofNat i))
      have htoNat : (UInt16.ofNat i).toNat = i := UInt16.toNat_ofNat_of_lt' hi
      simpa [get?, htoNat] using hport
    · rw [List.getElem?_eq_none (by omega), List.getElem?_eq_none (by omega)]
  have hreceiver : ts.receiver = ts'.receiver := h .receiver
  have houtput : ts.output = ts'.output := Option.some.inj (h .output)
  have hself : ts.selfOutput = ts'.selfOutput := h .selfOutput
  obtain ⟨_, _, _, _⟩ := ts
  simp_all

/-- Where the outputs are unwritten, each of them is. -/
theorem Terminals.reset_of_resetOutputs_eq {ts : Terminals} (h : ts.resetOutputs = ts) {port : Port}
    (hport : port.isOutput = true) {t : Terminal} (ht : ts.get? port = some t) : t.reset = t := by
  cases port with
  | param _ | receiver => exact absurd hport (by simp [Port.isOutput])
  | output =>
      obtain rfl : ts.output = t := Option.some.inj ht
      exact congrArg Terminals.output h
  | selfOutput =>
      have hself : ts.selfOutput.map Terminal.reset = ts.selfOutput :=
        congrArg Terminals.selfOutput h
      have ht : ts.selfOutput = some t := ht
      rw [ht] at hself
      exact Option.some.inj hself

/-! ## Bodies that delegate -/

/-- The mapping of a port between a call and the boundary: inputs go in and outputs go out. -/
def Port.passage (call : CallId) (port : Port) : Mapping :=
  if port.isOutput then .passing (.call call port) (.boundary port)
  else .passing (.boundary port) (.call call port)

/-- The slot into which the mapping of a port writes. -/
def Port.slot (call : CallId) (port : Port) : Slot :=
  if port.isOutput then .boundary port else .call call port

namespace Port

variable (call : CallId) (port : Port)

theorem isDirect_passage : (port.passage call).isDirect = true := by
  unfold passage
  split <;> rfl

theorem priority_passage : (port.passage call).priority = none := by
  unfold passage
  split <;> rfl

theorem isAccumulating_passage : (port.passage call).isAccumulating = false := by
  unfold passage
  split <;> rfl

theorem slotOf_passage : Wiring.slotOf (port.passage call) = .ok (port.slot call) := by
  by_cases hport : port.isOutput = true <;>
    simp [Wiring.slotOf, slot, passage, hport, Mapping.passing, Slot.of?, Slot.isInput]

theorem isLive_passage :
    (Frame.isLive [call] (port.passage call).source
      && Frame.isLive [call] (port.passage call).target) = true := by
  unfold passage
  split <;> simp [Mapping.passing, Frame.isLive]

theorem variables_passage :
    [(port.passage call).source, (port.passage call).target].filterMap Frame.variableOf? = [] := by
  unfold passage
  split <;> rfl

theorem slot_injective (call : CallId) : Function.Injective (slot call) := by
  intro port port' h
  unfold slot at h
  split at h <;> split at h <;> simp_all

end Port

/-- A function of a graph with an implementation, and another one with the same ports whose body is
one call of it, with a mapping for each port. -/
structure Delegation (g : Graph) where
  native : Description
  wrapper : Description
  body : CompositionId
  name : String
  call : CallId
  label : Option String
  /-- The ports in the order of their mappings. -/
  ports : List Port
  nativeFound : g.function native.id = .ok native
  wrapperFound : g.function wrapper.id = .ok wrapper
  bodyFound : g.composition body
    = .ok ⟨body, name, some wrapper.id, [call], [⟨call, native.id, .stop, label⟩],
      ports.map (Port.passage call)⟩
  noBody : native.body = none
  hasBody : wrapper.body = some body
  params : wrapper.params = native.params
  receiver : wrapper.receiver = native.receiver
  output : wrapper.output = native.output
  selfOutput : wrapper.selfOutput = native.selfOutput
  nodup : ports.Nodup
  mem_ports : ∀ port, port ∈ ports ↔ Graph.hasPort native port = true
  /-- Each parameter has a port. -/
  addressed : ∀ i < native.params.length, ∃ port : UInt16, port.toNat = i

namespace Delegation

variable {g : Graph} (D : Delegation g)

include D in
theorem length_params_le : D.native.params.length ≤ 65536 := by
  by_contra hlong
  obtain ⟨port, hport⟩ := D.addressed 65536 (by omega)
  exact absurd port.toNat_lt (by omega)

/-- The groups of the body: one for each port. -/
def targets : Assoc Slot Target :=
  D.ports.map fun port => (port.slot D.call, .single (port.passage D.call))

theorem keys_targets : Assoc.keys D.targets = D.ports.map (Port.slot D.call) := by
  simp [targets, Assoc.keys, Function.comp_def]

theorem nodup_keys_targets : (Assoc.keys D.targets).Nodup := by
  rw [D.keys_targets]
  exact D.nodup.map (Port.slot_injective D.call)

/-- The wiring of the body. -/
def wiring : Wiring :=
  .ofTargets D.body (D.ports.map (Port.passage D.call)) D.targets D.nodup_keys_targets

theorem build_wiring : Wiring.build D.body (D.ports.map (Port.passage D.call)) = .ok D.wiring := by
  let placed := D.ports.map fun port => (port.slot D.call, port.passage D.call)
  have hnodup : (placed.map (·.1)).Nodup := by
    rw [List.map_map]
    exact D.nodup.map (Port.slot_injective D.call)
  have hslots : ∀ p ∈ placed, Wiring.slotOf p.2 = .ok p.1 := by
    intro p hp
    obtain ⟨port, -, rfl⟩ := List.mem_map.1 hp
    exact port.slotOf_passage D.call
  have hdirect : ∀ p ∈ placed, p.2.isDirect = true := by
    intro p hp
    obtain ⟨port, -, rfl⟩ := List.mem_map.1 hp
    exact port.isDirect_passage D.call
  have hmappings : placed.map (·.2) = D.ports.map (Port.passage D.call) := List.map_map
  rw [← hmappings, Wiring.build_of_nodup hnodup hslots hdirect]
  exact congrArg _ (Wiring.eq_of_targets rfl hmappings List.map_map)

/-- The body with the terminals of its call. -/
def frame (checked : Bool) (inner : Terminals) : Frame where
  id := D.body
  name := D.name
  represents := some D.wrapper.id
  start := some D.call
  calls := [(D.call, { AppliedCall.ofDescription D.native (.call D.call) .stop D.label checked with
    terminals := inner })]
  wiring := D.wiring
  vars := []

theorem ofGraph_eq (checked : Bool) :
    Frame.ofGraph g D.body checked
      = .ok (D.frame checked (.ofDescription D.native (.call D.call) checked)) := by
  have hstart : g.startOf D.body = .ok (some D.call) := by
    simp [Graph.startOf, D.bodyFound]
  have hused : g.usedCalls D.body = .ok [D.call] := by
    simp only [Graph.usedCalls, D.bodyFound, hstart]
    rfl
  have hcalls : Frame.applyCalls g checked [D.call] [] [⟨D.call, D.native.id, .stop, D.label⟩]
      = .ok (D.frame checked (.ofDescription D.native (.call D.call) checked)).calls := by
    simp [Frame.applyCalls, D.nativeFound, frame, AppliedCall.ofDescription, Assoc.insert]
  have hlive : (D.ports.map (Port.passage D.call)).filter
      (fun m => Frame.isLive [D.call] m.source && Frame.isLive [D.call] m.target)
      = D.ports.map (Port.passage D.call) := by
    rw [List.filter_eq_self]
    intro m hm
    obtain ⟨port, -, rfl⟩ := List.mem_map.1 hm
    exact port.isLive_passage D.call
  have hvars : Frame.variablesOf (D.ports.map (Port.passage D.call)) = [] := by
    have hnames : (D.ports.map (Port.passage D.call)).flatMap
        (fun m => [m.source, m.target].filterMap Frame.variableOf?) = [] := by
      rw [List.flatMap_eq_nil_iff]
      intro m hm
      obtain ⟨port, -, rfl⟩ := List.mem_map.1 hm
      exact port.variables_passage D.call
    rw [Frame.variablesOf, hnames]
    rfl
  unfold Frame.ofGraph
  simp only [D.bodyFound, hstart, hused, hcalls, hlive, D.build_wiring, hvars,
    Except.mapError, bind,
    Except.bind]
  rfl

theorem authoritative_slot {port : Port} (hport : port ∈ D.ports) :
    D.wiring.authoritative (port.slot D.call) = .ok (some [port.passage D.call]) := by
  have hfind : Assoc.find? D.wiring.targets (port.slot D.call) =
      some (.single (port.passage D.call)) :=
    Assoc.find?_of_mem D.nodup_keys_targets (List.mem_map.2 ⟨port, hport, rfl⟩)
  rw [Wiring.authoritative, hfind]
  simp [Target.current?, Target.single, Assoc.find?, Port.priority_passage]

/-- No mapping has a priority, so that a completion changes nothing. -/
theorem complete_wiring : D.wiring.complete D.call = D.wiring := by
  have htargets : ∀ slot t, (slot, t) ∈ D.wiring.targets →
      (if Assoc.contains t.groups (some D.call) then { t with authority := some D.call } else t) =
        t := by
    intro slot t ht
    obtain ⟨port, -, heq⟩ := List.mem_map.1 ht
    obtain ⟨-, rfl⟩ := Prod.mk.inj heq
    simp [Target.single, Assoc.contains, Assoc.find?, Port.priority_passage]
  exact Wiring.eq_of_targets rfl rfl (Assoc.mapValues_eq_self htargets)

/-- The body writes no variable. -/
theorem writtenVariables_wiring : D.wiring.writtenVariables = [] := by
  refine List.eq_nil_iff_forall_not_mem.2 fun name hname => ?_
  have hslot : .variable name ∈ D.ports.map (Port.slot D.call) :=
    D.keys_targets ▸ Wiring.mem_writtenVariables.1 hname
  obtain ⟨port, -, hport⟩ := List.mem_map.1 hslot
  unfold Port.slot at hport
  split at hport <;> cases hport

theorem fedBy_wiring (call : CallId) : D.wiring.fedBy call = [] := by
  have hsublist := D.wiring.sublist_variablesWith fun m => m.sourceCall? == some call
  rw [D.writtenVariables_wiring, List.sublist_nil] at hsublist
  rw [Wiring.fedBy_eq, hsublist]

theorem accumulatingFrom_wiring (call : CallId) : D.wiring.accumulatingFrom call = [] := by
  rw [Wiring.accumulatingFrom_eq, List.filter_eq_nil_iff]
  intro m hm
  obtain ⟨port, -, rfl⟩ := List.mem_map.1 hm
  simp [Port.isAccumulating_passage]

theorem mem_inputSlots {slot : Slot} : slot ∈ D.wiring.inputSlots D.call ↔
    ∃ port, port ∈ D.ports ∧ port.isOutput = false ∧ slot = .call D.call port := by
  rw [Wiring.inputSlots_eq, wiring, Wiring.ofTargets, D.keys_targets, List.mem_filter, List.mem_map]
  constructor
  · rintro ⟨⟨port, hmem, rfl⟩, hcall⟩
    by_cases hport : port.isOutput = true
    · exact absurd hcall (by simp [Port.slot, hport, Slot.isOf])
    · exact ⟨port, hmem, by simpa using hport, by simp [Port.slot, hport]⟩
  · rintro ⟨port, hmem, hport, rfl⟩
    exact ⟨⟨port, hmem, by simp [Port.slot, hport]⟩, by simp [Slot.isOf]⟩

/-! ### Scenes of the body -/

/-- The scene with the terminals of the call inside and of the one around it. -/
def scene (checked : Bool) (inner outer : Terminals) : Scene := ⟨D.frame checked inner, some outer⟩

variable {checked : Bool} {inner outer : Terminals} {port : Port} {t : Terminal} {site : Site}

theorem terminal?_call :
    (D.scene checked inner outer).terminal? (.call D.call port) = inner.get? port := by
  simp [scene, frame, Scene.terminal?, Assoc.find?]

theorem terminal?_boundary :
    (D.scene checked inner outer).terminal? (.boundary port) = outer.get? port := by
  simp [scene, Scene.terminal?]

theorem put_call : (D.scene checked inner outer).put (.call D.call port) t
    = D.scene checked (inner.set port t) outer := by
  simp [scene, frame, Scene.put, Assoc.modify]

theorem put_boundary : (D.scene checked inner outer).put (.boundary port) t
    = D.scene checked inner (outer.set port t) := by
  simp [scene, Scene.put]

/-! ### Inputs go in -/

variable (checked)

/-- What is copied of the inputs around the call so far; its other terminals are unwritten. -/
structure Copies (call : CallId) (outer inner : Terminals) (copied : List Port) : Prop where
  length : inner.params.length = outer.params.length
  get? : ∀ port, inner.get? port = (outer.get? port).map fun t =>
    if port ∈ copied then t.relocate (.call call) else (t.relocate (.call call)).reset

/-- One more input is copied. -/
theorem ingest_input {copied : List Port} (hcopies : Copies D.call outer inner copied)
    (houter : outer.EachInput Terminal.Holds) (hport : port ∈ D.ports)
    (hinput : port.isOutput = false)
    (hsome : (outer.get? port).isSome = true) :
    ∃ inner', (Flow.ingest (.call D.call port)).run (D.scene checked inner outer)
        = (.ok true, D.scene checked inner' outer) ∧
        Copies D.call outer inner' (port :: copied) := by
  obtain ⟨t, ht⟩ := Option.isSome_iff_exists.1 hsome
  obtain ⟨v, hcheck, hcell⟩ := houter.get? hinput ht
  have hgroup := D.authoritative_slot hport
  simp only [Port.slot, Port.passage, hinput, if_neg Bool.false_ne_true] at hgroup
  have hsource : (D.scene checked inner outer).peek (.boundary port) = some v := by
    rw [Scene.peek_of_slot _ rfl, D.terminal?_boundary, ht, Option.bind_some, Terminal.peek, hcell]
    rfl
  -- both what was copied before and what is unwritten become the same when the value is written
  obtain ⟨u, hu, hcheck', hholding⟩ : ∃ u, inner.get? port = some u ∧ u.check none v = .ok () ∧
      u.holding v = t.relocate (.call D.call) := by
    have hrelocate : (t.relocate (.call D.call)).holding v = t.relocate (.call D.call) := by
      rw [Terminal.holding, ← hcell]
      rfl
    have hcheckAt : (t.relocate (.call D.call)).check none v = .ok () :=
      Terminal.check_relocate_iff.2 hcheck
    rw [hcopies.get?, ht]
    by_cases hcopied : port ∈ copied
    · exact ⟨t.relocate (.call D.call), by simp [hcopied], hcheckAt, hrelocate⟩
    · exact ⟨(t.relocate (.call D.call)).reset, by simp [hcopied], hcheckAt, hrelocate⟩
  refine ⟨inner.set port (t.relocate (.call D.call)), ?_, ?_, fun port' => ?_⟩
  · rw [← hholding, ← D.put_call]
    exact Flow.ingest_passing hgroup hsource (D.terminal?_call.trans hu) hcheck'
  · rw [← hcopies.length]
    cases port <;> simp [Terminals.set]
  · rw [Terminals.get?_set hu]
    by_cases heq : port = port'
    · subst heq
      simp [ht]
    · simp [heq, Ne.symm heq, hcopies.get? port']

theorem ingestAll_inputs {slots : List Slot} {copied : List Port}
    (hslots : ∀ slot ∈ slots,
      ∃ port, port ∈ D.ports ∧ port.isOutput = false ∧ slot = .call D.call port)
    (houter : outer.EachInput Terminal.Holds)
    (hsome : ∀ port ∈ D.ports, (outer.get? port).isSome = true)
    (hcopies : Copies D.call outer inner copied)
    (hinputs : ∀ port ∈ copied, port.isOutput = false) :
    ∃ inner' copied', (Flow.ingestAll slots).run (D.scene checked inner outer)
        = (.ok (), D.scene checked inner' outer) ∧ Copies D.call outer inner' copied' ∧
      (∀ port ∈ copied', port.isOutput = false) ∧
      ∀ port, port ∈ copied ∨ .call D.call port ∈ slots → port ∈ copied' := by
  induction slots generalizing inner copied with
  | nil => exact ⟨inner, copied, rfl, hcopies, hinputs, fun port h => h.resolve_right (by simp)⟩
  | cons slot rest ih =>
      obtain ⟨port, hport, hinput, rfl⟩ := hslots slot (by simp)
      obtain ⟨inner₁, hingest, hcopies₁⟩ := D.ingest_input checked hcopies houter hport hinput
        (hsome port hport)
      have hinputs₁ : ∀ p ∈ port :: copied, p.isOutput = false := by
        intro p hp
        rcases List.mem_cons.1 hp with rfl | hp
        · exact hinput
        · exact hinputs p hp
      obtain ⟨inner', copied', hrest, hcopies', hinputs', hall⟩ := ih
        (fun s hs => hslots s (List.mem_cons_of_mem _ hs)) hcopies₁ hinputs₁
      refine ⟨inner', copied', ?_, hcopies', hinputs', fun p hp => ?_⟩
      · rw [Flow.ingestAll, Flow.run_bind, hingest]
        exact hrest
      · refine hall p ?_
        rcases hp with hp | hp
        · exact .inl (List.mem_cons_of_mem _ hp)
        · rcases List.mem_cons.1 hp with heq | hp
          · obtain ⟨-, rfl⟩ := Slot.call.inj heq
            exact .inl (by simp)
          · exact .inr hp

/-- The terminals around the body before it runs: the inputs have values and the outputs none. -/
structure Ready (outer : Terminals) : Prop where
  holds : outer.EachInput Terminal.Holds
  reset : ∃ site, outer.reset = .ofDescription D.native site checked
  unwritten : outer.resetOutputs = outer

/-- **All inputs are copied to the call.** -/
theorem ingest_inputs (hready : D.Ready checked outer) :
    (Flow.ingestAll (D.wiring.inputSlots D.call)).run
      (D.scene checked (.ofDescription D.native (.call D.call) checked) outer)
      = (.ok (), D.scene checked (outer.relocate (.call D.call)) outer) := by
  obtain ⟨site, hreset⟩ := hready.reset
  have hhas : ∀ port, (outer.get? port).isSome = Graph.hasPort D.native port := by
    intro port
    rw [← Terminals.isSome_get?_ofDescription D.native site checked port, ← hreset,
      Terminals.get?_reset,
      Option.isSome_map]
  have hcopies : Copies D.call outer (.ofDescription D.native (.call D.call) checked) [] := by
    rw [← Terminals.relocate_ofDescription D.native site, ← hreset]
    refine ⟨by simp [Terminals.relocate, Terminals.reset_eq], fun port => ?_⟩
    rw [Terminals.get?_relocate, Terminals.get?_reset, Option.map_map]
    rfl
  obtain ⟨inner, copied, hrun, hcopies, hinputs, hall⟩ := D.ingestAll_inputs checked
    (fun slot hslot => D.mem_inputSlots.1 hslot) hready.holds
    (fun port hport => (hhas port).trans ((D.mem_ports port).1 hport)) hcopies (by simp)
  have hinner : inner = outer.relocate (.call D.call) := by
    refine Terminals.ext_get? ?_ ?_ fun port => ?_
    · rw [hcopies.length, Terminals.relocate, List.length_map]
    · rw [hcopies.length, Terminals.length_of_reset_eq hreset]
      exact D.length_params_le
    · rw [hcopies.get?, Terminals.get?_relocate]
      cases ht : outer.get? port with
      | none => rfl
      | some t =>
          refine congrArg some ?_
          cases hport : port.isOutput with
          | false =>
              have hmem : port ∈ D.ports := (D.mem_ports port).2 (by rw [← hhas, ht]; rfl)
              exact if_pos (hall port (.inr (D.mem_inputSlots.2 ⟨port, hmem, hport, rfl⟩)))
          | true =>
              have hnot : port ∉ copied := fun hmem => absurd (hinputs port hmem) (by simp [hport])
              have hreset : t.reset = t :=
                Terminals.reset_of_resetOutputs_eq hready.unwritten hport ht
              refine (if_neg hnot).trans ?_
              calc (t.relocate (.call D.call)).reset = t.reset.relocate (.call D.call) := rfl
                _ = t.relocate (.call D.call) := by rw [hreset]
  rw [hrun, hinner]

/-! ### Results come out -/

/-- The body has no variables. -/
theorem run_seed :
    Flow.seed.run (D.scene checked inner outer) = (.ok (), D.scene checked inner outer) := by
  have hwritten : (D.scene checked inner outer).frame.wiring.writtenVariables = [] :=
    D.writtenVariables_wiring
  rw [Flow.seed, Flow.run_bind, Flow.run_look, hwritten]
  simp only [Flow.seeds, Flow.run_bind, Flow.plant, Flow.run_pure, Flow.run_propagate_nil]

/-- The completion of the call entails nothing. -/
theorem run_settle :
    (Flow.settle D.call).run (D.scene checked inner outer) =
      (.ok [], D.scene checked inner outer) := by
  have hcomplete : (D.scene checked inner outer).complete D.call = D.scene checked inner outer := by
    simp only [Scene.complete, scene, frame, D.complete_wiring]
  have hmodify :
      (modify fun s => { s with frame.wiring := s.frame.wiring.complete D.call } : Flow PUnit).run
      (D.scene checked inner outer) = (.ok .unit, D.scene checked inner outer) :=
    congrArg (Prod.mk _) hcomplete
  have haccumulating : (D.scene checked inner outer).frame.wiring.accumulatingFrom D.call = [] :=
    D.accumulatingFrom_wiring D.call
  have hfed : (D.scene checked inner outer).frame.wiring.fedBy D.call = [] := D.fedBy_wiring D.call
  rw [Flow.settle, Flow.run_bind, hmodify]
  simp only [Flow.run_bind, Flow.run_look, haccumulating, Flow.pushes, Flow.pushAll, Flow.run_pure,
    Flow.run_get, hfed, Flow.feed, List.append_nil, Flow.run_propagate_nil]

/-- An output of the call is copied to the boundary. -/
theorem ingest_output {v : Value} {u : Terminal} (hport : port ∈ D.ports)
    (houtput : port.isOutput = true)
    (hu : inner.get? port = some u) (hpeek : u.peek = some v) (ht : outer.get? port = some t)
    (hcheck : t.check none v = .ok ()) :
    (Flow.ingest (.boundary port)).run (D.scene checked inner outer)
      = (.ok true, D.scene checked inner (outer.set port (t.holding v))) := by
  have hgroup := D.authoritative_slot hport
  simp only [Port.slot, Port.passage, houtput] at hgroup
  have hsource : (D.scene checked inner outer).peek (.call D.call port) = some v := by
    rw [Scene.peek_of_slot _ rfl, D.terminal?_call, hu, Option.bind_some, hpeek]
  rw [← D.put_boundary]
  exact Flow.ingest_passing hgroup hsource (D.terminal?_boundary.trans ht) hcheck

/-- **The answer of the call is copied to the boundary.** -/
theorem run_finish {v : Value} {r : Option Value}
    (hself : inner.selfOutput.isSome = outer.selfOutput.isSome)
    (hports : outer.selfOutput.isSome = D.native.selfOutput.isSome) (htakes : outer.Takes v r) :
    Flow.finish.run (D.scene checked (inner.answered v r) outer)
      = (.ok (), D.scene checked (inner.answered v r) (outer.answered v r)) := by
  have hout : .output ∈ D.ports := (D.mem_ports .output).2 rfl
  have houtput : (Flow.ingest (.boundary .output)).run (D.scene checked (inner.answered v r) outer)
      = (.ok true, D.scene checked (inner.answered v r)
        (outer.set .output (outer.output.holding v))) :=
    D.ingest_output checked hout rfl rfl rfl rfl htakes.output
  have hfirst : Flow.finishOutput.run (D.scene checked (inner.answered v r) outer)
      = (.ok (), D.scene checked (inner.answered v r)
        (outer.set .output (outer.output.holding v))) := by
    rw [Flow.finishOutput, Flow.run_bind, houtput]
    rfl
  rw [Flow.finish, Flow.run_bind, hfirst]
  simp only
  cases ht : outer.selfOutput with
  | none =>
      have hwritten : Flow.boundaryWritten? (D.scene checked (inner.answered v r)
          (outer.set .output (outer.output.holding v))) .selfOutput = none := by
        simp [Flow.boundaryWritten?, scene, Terminals.set, Terminals.get?, ht]
      rw [Flow.finishSelfOutput, Flow.run_bind, Flow.run_get]
      simp only [hwritten, Flow.run_pure]
      simp [Terminals.set, Terminals.answered, ht]
  | some t =>
      rw [ht] at hself hports
      obtain ⟨u, hu⟩ := Option.isSome_iff_exists.1 hself
      have hport : .selfOutput ∈ D.ports := (D.mem_ports .selfOutput).2 hports.symm
      have hinner : (inner.answered v r).get? .selfOutput = some (u.holding (r.getD .none)) := by
        simp [Terminals.get?, Terminals.answered, hu]
      have hsecond : (Flow.ingest (.boundary .selfOutput)).run (D.scene checked (inner.answered v r)
          (outer.set .output (outer.output.holding v)))
          = (.ok true, D.scene checked (inner.answered v r)
            ((outer.set .output (outer.output.holding v)).set
            .selfOutput (t.holding (r.getD .none)))) :=
        D.ingest_output checked hport rfl hinner rfl (by simp [Terminals.set, Terminals.get?, ht])
          (htakes.selfOutput t ht)
      have hwritten : Flow.boundaryWritten? (D.scene checked (inner.answered v r)
          (outer.set .output (outer.output.holding v))) .selfOutput = some t.isWritten := by
        simp [Flow.boundaryWritten?, scene, Terminals.set, Terminals.get?, ht]
      rw [Flow.finishSelfOutput, Flow.run_bind, Flow.run_get]
      simp only [hwritten]
      rw [Flow.run_bind, hsecond]
      simp [Terminals.set, Terminals.answered, ht]

end Delegation

/-! ## Runs of the body -/

namespace Delegation

variable {ctx : Context} (D : Delegation ctx.graph) {outer : Terminals} {site : Site} {depth : Nat}
  {log : Log} {run : Runner} {a : Active} {result : Except RunFault Unit}

/-- The call of the body when its inputs are ingested. -/
def active (outer : Terminals) (log : Log) : Active :=
  { call := { AppliedCall.ofDescription D.native (.call D.call) .stop D.label ctx.checked with
      terminals := outer.relocate (.call D.call) }
    handle := none
    body := none
    log := log.visit D.call }

/-- The body before its run. -/
def start (outer : Terminals) (log : Log) : Walk :=
  { scene := D.scene ctx.checked (.ofDescription D.native (.call D.call) ctx.checked) outer
    handles := []
    bodies := []
    log }

theorem visit_call (hready : D.Ready ctx.checked outer)
    (hinvoke : ctx.invoke D.native (D.active outer log) = (result, a)) :
    Walk.visit ctx run depth D.call (D.start outer log)
      = some ((({ D.start outer log with
          scene := D.scene ctx.checked (outer.relocate (.call D.call)) outer
          log := log.visit D.call } : Walk).keep D.call a).afterCall depth D.call
            (D.active outer log).call
        result) := by
  have hfound :
      Assoc.find? (D.scene ctx.checked (outer.relocate (.call D.call)) outer).frame.calls D.call
      = some (D.active outer log).call := by
    simp [scene, frame, active, Assoc.find?]
  exact Walk.visit_eq_of_invoke (D.ingest_inputs ctx.checked hready) hfound D.nativeFound
    D.noBody rfl rfl hinvoke

/-- **The body succeeds with the answer of its call.** -/
theorem steps_of_invoke (fuel depth : Nat) {ts : Terminals} {handle : Option Callable}
    (hready : D.Ready ctx.checked outer)
    (hinvoke : ctx.invoke D.native (D.active outer log)
      = (.ok (), { (D.active outer log).withTerminals ts with handle })) :
    ∃ w, Walk.steps ctx (fuel + 1) depth (some D.call) (D.start outer log) = some (.ok (), w) ∧
      w.scene = D.scene ctx.checked ts outer := by
  rw [Walk.steps, D.visit_call hready hinvoke]
  generalize hw : Walk.keep _ D.call _ = w
  have hscene : w.scene = D.scene ctx.checked ts outer := by
    rw [← hw]
    simp [Walk.keep, scene, frame, active, Assoc.modify, Active.withTerminals]
  have hsettle :
      (w.record depth D.call (D.active outer log).call .completed).flow (Flow.settle D.call)
      = (.ok [], w.record depth D.call (D.active outer log).call .completed) := by
    simp only [Walk.flow, Walk.record, hscene, D.run_settle]
  simp only [Walk.afterCall, hsettle]
  refine ⟨w.record depth D.call (D.active outer log).call .completed, ?_, hscene⟩
  cases fuel <;> rfl

/-- The body fails if its call does. -/
theorem steps_of_invoke_error (fuel depth : Nat) {fault : RunFault}
    (hready : D.Ready ctx.checked outer)
    (hinvoke : ctx.invoke D.native (D.active outer log) = (.error fault, a)) :
    ∃ w, Walk.steps ctx (fuel + 1) depth (some D.call) (D.start outer log) =
      some (.error fault, w) := by
  have hloop : ∀ iterate after, (D.active outer log).call.successor ≠ .loop iterate after := by
    intro iterate after h
    exact absurd h (by simp [active, AppliedCall.ofDescription])
  rw [Walk.steps, D.visit_call hready hinvoke, Walk.afterCall_failed hloop]
  exact ⟨_, rfl⟩

/-- The body as an instance that has not run. -/
def unstarted : Instance :=
  .mk (D.frame ctx.checked (.ofDescription D.native (.call D.call) ctx.checked)) [] []

/-- What is run as the body of the wrapper. -/
theorem bodyOf_eq : ctx.bodyOf D.body none = .ok D.unstarted := by
  simp [Context.bodyOf, Instance.ofGraph, D.ofGraph_eq, Except.map, unstarted]

theorem reset_unstarted : D.unstarted.reset = D.unstarted := by
  simp [unstarted, Instance.reset, Instance.resetBodies,
    Frame.reset_of_ofGraph (D.ofGraph_eq ctx.checked)]

theorem flow_seed : (D.start outer log).flow Flow.seed = (.ok (), D.start outer log) := by
  simp only [Walk.flow, start, D.run_seed]

theorem begin_unstarted : Walk.begin D.unstarted (some outer) log = D.start outer log := rfl

/-- After a walk that succeeds the results come out. -/
theorem runner_of_ok {fuel : Nat} {w : Walk} {inner outer' : Terminals}
    (hsteps : Walk.steps ctx fuel depth (some D.call) (D.start outer log) = some (.ok (), w))
    (hscene : w.scene = D.scene ctx.checked inner outer)
    (hfinish : Flow.finish.run (D.scene ctx.checked inner outer)
      = (.ok (), D.scene ctx.checked inner outer')) :
    ∃ ran, Walk.runner (Walk.steps ctx fuel) depth D.unstarted outer log = some (.ok (), ran) ∧
      ran.terminals = outer' := by
  have hstart : (D.start outer log).scene.frame.start = some D.call := rfl
  have hboundary : w.scene.boundary = some outer := congrArg Scene.boundary hscene
  have hflow :
      w.flow Flow.finish = (.ok (), { w with scene := D.scene ctx.checked inner outer' }) := by
    simp only [Walk.flow, hscene, hfinish]
  simp only [Walk.runner, begin_unstarted, Walk.around, D.flow_seed, hstart, hsteps,
    hboundary, hflow]
  exact ⟨_, rfl, rfl⟩

/-- A walk that fails is all of the run. -/
theorem runner_of_error {fuel : Nat} {w : Walk} {fault : RunFault}
    (hsteps : Walk.steps ctx fuel depth (some D.call) (D.start outer log) =
      some (.error fault, w)) :
    ∃ ran, Walk.runner (Walk.steps ctx fuel) depth D.unstarted outer log =
      some (.error fault, ran) := by
  have hstart : (D.start outer log).scene.frame.start = some D.call := rfl
  simp only [Walk.runner, begin_unstarted, Walk.around, D.flow_seed, hstart, hsteps]
  exact ⟨_, rfl⟩

/-- **A run of the body succeeds with the answer of the implementation**, if there is one that the
outputs take. -/
theorem runner_of_gives (fuel depth : Nat) {v : Value} {r : Option Value}
    (hready : D.Ready ctx.checked outer)
    (hgives : ctx.Gives D.native outer v r) (htakes : outer.Takes v r) :
    ∃ ran,
      Walk.runner (Walk.steps ctx (fuel + 1)) depth D.unstarted outer log = some (.ok (), ran) ∧
      ran.terminals = outer.answered v r := by
  have htakes' : (D.active outer log).call.terminals.Takes v r :=
    Terminals.takes_relocate_iff.2 htakes
  obtain ⟨handle, hinvoke⟩ := Context.invoke_of_gives (a := D.active outer log) rfl
    (Context.gives_relocate_iff.2 hgives) htakes'
  obtain ⟨w, hsteps, hscene⟩ := D.steps_of_invoke fuel depth hready hinvoke
  refine D.runner_of_ok hsteps hscene (D.run_finish ctx.checked ?_ ?_ htakes)
  · simp [active, Terminals.relocate, Terminals.consumeInputs, Terminals.mapInputs]
  · obtain ⟨site, hreset⟩ := hready.reset
    have hself := congrArg (fun ts : Terminals => ts.selfOutput.isSome) hreset
    simpa [Terminals.reset_eq, Terminals.ofDescription] using hself

/-- Otherwise it fails. -/
theorem runner_of_not_gives (fuel depth : Nat) (hready : D.Ready ctx.checked outer)
    (hnot : ∀ v r, ctx.Gives D.native outer v r → ¬ outer.Takes v r) :
    ∃ fault ran,
      Walk.runner (Walk.steps ctx (fuel + 1)) depth D.unstarted outer log =
        some (.error fault, ran) := by
  cases hinvoke : ctx.invoke D.native (D.active outer log) with
  | mk result a =>
      cases result with
      | ok _ =>
          obtain ⟨v, r, hgives, htakes, -⟩ := Context.gives_of_invoke rfl hinvoke
          exact absurd (Terminals.takes_relocate_iff.1 htakes)
            (hnot v r (Context.gives_relocate_iff.1 hgives))
      | error fault =>
          obtain ⟨w, hsteps⟩ := D.steps_of_invoke_error fuel depth hready hinvoke
          exact ⟨fault, D.runner_of_error hsteps⟩

end Delegation

end CallFlow
