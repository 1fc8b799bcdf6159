import CallFlow.Proofs.Delivery
import CallFlow.Proofs.Faults

/-!
# Exhausted visits

A visit of a loop node that ends in exhaustion is not settled: it switches no authority, pushes
nothing and refreshes no variable, so that nothing changes outside of its call.  What it leaves of
the call itself depends on where the signal comes from (`Walk.exhausted_of_executes`).

An implementation that signals exhaustion has read all inputs and touched no output
(`Walk.Signals`).  A signal from inside of a body leaves the call in the middle of its execution
(`Walk.Abandons`): the inputs are still fresh, as they were prepared for the body, and the
outputs, which were emptied before the body began, hold what the body has pushed into them so far.
-/

namespace CallFlow

theorem Scene.Fails.not_isExhausted {s : Scene} {fault : RunFault} (h : s.Fails fault) :
    ¬ fault.IsExhausted := by
  cases h <;> exact id

theorem Terminals.get?_resetOutputs (ts : Terminals) (port : Port) :
    ts.resetOutputs.get? port
      = if port.isOutput then (ts.get? port).map Terminal.reset else ts.get? port := by
  cases port <;> simp [resetOutputs, get?, Port.isOutput]

namespace Wiring

/-- Nothing settles into a slot that is no target: outputs of calls and inputs of the boundary. -/
theorem Built.not_settlesInto {w : Wiring} (h : w.Built) (call : CallId) {slot : Slot}
    (hslot : slot.isInput = false) : ¬ Flow.SettlesInto w call slot := by
  rintro (⟨m, hm, htarget⟩ | ⟨name, rfl, -⟩)
  · obtain ⟨slot', hslot', hinput⟩ := h.exists_slot (mem_accumulatingFrom.1 hm).1
    obtain rfl : slot' = slot := Option.some.inj (hslot'.symm.trans htarget)
    exact absurd hinput (by simp [hslot])
  · exact absurd hslot (by simp [Slot.isInput])

/-- Outputs of a call are no targets, so that no visit ingests them. -/
theorem Built.not_mem_inputSlots_output {w : Wiring} (h : w.Built) (call : CallId) {port : Port}
    (hport : port.isOutput = true) : Slot.call call port ∉ w.inputSlots call := by
  intro hmem
  obtain ⟨m, hm, -, htarget⟩ := h.exists_mapping_of_mem_inputSlots hmem
  obtain ⟨slot, hslot, hinput⟩ := h.exists_slot hm
  obtain rfl : slot = .call call port := Option.some.inj (hslot.symm.trans htarget)
  exact absurd hinput (by simp [Slot.isInput, hport])

end Wiring

namespace Walk

variable {ctx : Context} {id : CompositionId} {inputs : List (String × Value)} {depth : Nat}
  {w₀ w w' : Walk} {history : List Visit} {r : Except RunFault (Option CallId)} {v : Visit}
  {port : Port}

/-! ## Runs that end in exhaustion -/

theorem Refuses.not_isExhausted {call : CallId} {fault : RunFault} (h : Refuses call w fault w') :
    ¬ fault.IsExhausted := by
  cases h with
  | inputs hingest => exact (Flow.failsAs_ingestAll _ _ _ _ hingest).not_isExhausted
  | missing _ _ => exact fun h => h

/-- What a visit does to the boundary: it appends what it pushes there, if the walk goes on or has
ended in exhaustion. -/
theorem collects_boundary_of_executes {run : Runner} {vs : List Value}
    (hexecutes : Executes ctx run depth w v r w')
    (hr : ∀ fault, r = .error fault → fault.IsExhausted)
    (hw : w.scene.Collects (.boundary port) vs) :
    w'.scene.Collects (.boundary port)
      (vs ++ v.pushes w.scene.frame.wiring (.boundary port)) := by
  obtain ⟨s, hwiring, hothers, hinside, hend⟩ := hexecutes.leaves
  have hkept : s.Collects (.boundary port) vs := by
    intro t ht
    rw [hothers _ fun ⟨_, hc⟩ => absurd hc (by simp)] at ht
    exact hw t ht
  rcases hend with ⟨hcompleted, settled, hsettle, next, rfl⟩ | ⟨hne, hw'⟩
  · cases settled with
    | error fault =>
        exact absurd (hr fault rfl) (Flow.failsAs_settle hsettle).not_isExhausted
    | ok order =>
        have hcollects := Flow.collects_settle (by simp) hkept hsettle
        rw [Visit.pushes_of_completed hcompleted hinside, hwiring] at hcollects
        exact hcollects
  · rw [hw', Visit.pushes, if_neg hne, List.append_nil]
    exact hkept

/-- A run that goes on, or that has ended in exhaustion, has appended to its boundary what its
visits have pushed there, and nothing else. -/
theorem collects_boundary_of_reaches (hreaches : Reaches ctx depth w₀ history r w)
    (hr : ∀ fault, r = .error fault → fault.IsExhausted)
    (hw₀ : w₀.scene.Collects (.boundary port) []) :
    w.scene.Collects (.boundary port)
      (pushed w₀.scene.frame.wiring (.boundary port) history) := by
  induction hreaches with
  | @seeded s hseed =>
      have hseeded := Flow.evolves_seed w₀.scene
      rw [hseed] at hseeded
      intro t ht
      rw [hseeded.others _ fun ⟨_, hc⟩ => absurd hc (by simp)] at ht
      exact hw₀ t ht
  | refused _ hrefuses _ => exact absurd (hr _ rfl) hrefuses.not_isExhausted
  | @executed history fuel v w w' r hbefore hexecutes ih =>
      have hearlier := ih fun fault h => absurd h (by simp)
      have hcollects := collects_boundary_of_executes hexecutes hr hearlier
      have hmappings : w.scene.frame.wiring.mappings = w₀.scene.frame.wiring.mappings := by
        rw [hbefore.wiring, Wiring.mappings_completeAll]
      rw [Visit.pushes_of_mappings hmappings] at hcollects
      exact hcollects

/-- No run writes an input of its boundary. -/
theorem Reaches.boundary_input (hreaches : Reaches ctx depth w₀ history r w)
    (hbuilt : w₀.scene.frame.wiring.Built) (hport : port.isOutput = false) :
    w.scene.terminal? (.boundary port) = w₀.scene.terminal? (.boundary port) := by
  induction hreaches with
  | @seeded s hseed =>
      have hseeded := Flow.evolves_seed w₀.scene
      rw [hseed] at hseeded
      exact hseeded.others _ fun ⟨_, hc⟩ => absurd hc (by simp)
  | refused _ hrefuses ih =>
      exact (hrefuses.evolves.others _ fun ⟨_, hc⟩ => absurd hc (by simp)).trans ih
  | @executed history fuel v w w' r hbefore hexecutes ih =>
      obtain ⟨s, hwiring, hothers, -, hend⟩ := hexecutes.leaves
      have hkept : s.terminal? (.boundary port) = w₀.scene.terminal? (.boundary port) :=
        (hothers _ fun ⟨_, hc⟩ => absurd hc (by simp)).trans ih
      rcases hend with ⟨-, settled, hsettle, -⟩ | ⟨-, hw'⟩
      · have hsbuilt : s.frame.wiring.Built := by
          rw [hwiring, hbefore.wiring]
          exact hbuilt.of_reset_eq (Wiring.reset_completeAll ..)
        have hsettles : ¬ Flow.SettlesInto s.frame.wiring v.call (.boundary port) :=
          hsbuilt.not_settlesInto v.call (by simp [Slot.isInput, hport])
        exact ((Flow.evolves_settle_of_eq hsettle).others _ hsettles).trans hkept
      · rwa [hw']

/-- A run that ends in exhaustion has ended so at one of its visits. -/
theorem exists_reaches_of_exhausted {fuel : Nat} {site : Site}
    (h : run ctx fuel depth w₀ = some (.error (.exhausted site), w)) :
    ∃ history, Reaches ctx depth w₀ history (.error (.exhausted site)) w := by
  rcases around_eq_some h with ⟨fault, s, hseed, hfault, -⟩ | ⟨s, r₁, w₁, hseed, hsteps, hend⟩
  · obtain rfl := Except.error.inj hfault
    exact absurd trivial (Flow.failsAs_seed _ _ _ hseed).not_isExhausted
  · rcases hend with ⟨rfl, rfl, -⟩ | ⟨s₁, -, -, hfinish, -⟩
    · obtain ⟨history, hreaches⟩ := steps_reaches (.seeded hseed) hsteps
      exact ⟨history, hreaches⟩
    · exact absurd trivial (Flow.failsAs_finish _ _ _ hfinish).not_isExhausted

/-! ## Exhausted visits -/

/-- What the visit of a call leaves of it whose implementation has signalled exhaustion: its outputs
are as they were, and all its inputs are read. -/
structure Signals (w w' : Walk) (call : CallId) : Prop where
  outputs : ∀ port, port.isOutput = true →
    w'.scene.terminal? (.call call port) = w.scene.terminal? (.call call port)
  inputs : ∀ port t, port.isOutput = false → w'.scene.terminal? (.call call port) = some t →
    t.cell.consumed = true

/-- What the visit of a call leaves of it out of whose body exhaustion has come: its inputs are
those that were prepared for the body, and none of them is read; its outputs hold what the visits of
the body have pushed into them, and nothing else. -/
structure Abandons (ctx : Context) (depth : Nat) (w' : Walk) (id : CallId) (call : AppliedCall)
    (d : Description) (bodyId : CompositionId) : Prop where
  prepared : ∃ ts, call.terminals.prepare d call.site = (.ok (), ts) ∧
    ∀ port, port.isOutput = false → w'.scene.terminal? (.call id port) = ts.get? port
  fresh : ∀ port p t, call.terminals.input? d port = some (p, t) →
    ∃ t', w'.scene.terminal? (.call id port) = some t' ∧ t'.isFresh = true
  outputs : ∃ b₀ b nested site, Begins ctx bodyId [] b₀ ∧
    Reaches ctx (depth + 1) b₀ nested (.error (.exhausted site)) b ∧
    ∀ port, port.isOutput = true → w'.scene.Collects (.call id port)
      (pushed b₀.scene.frame.wiring (.boundary port) nested)

/-- A call of which the execution has read the inputs, and nothing else. -/
theorem signals_of_read {callId : CallId} {call : AppliedCall} (henters : w.Enters callId call)
    (hbuilt : w.scene.frame.wiring.Built)
    (hread : ∀ port, w'.scene.terminal? (.call callId port) =
      call.terminals.consumeInputs.get? port) :
    Signals w w' callId := by
  obtain ⟨s, hingest, hfound⟩ := henters
  have hevolves := Flow.evolves_ingestAll w.scene (w.scene.frame.wiring.inputSlots callId)
  rw [hingest] at hevolves
  constructor
  · intro port hport
    rw [hread, Terminals.get?_consumeInputs, if_pos hport,
      ← hevolves.others _ (hbuilt.not_mem_inputSlots_output callId hport)]
    simp [Scene.terminal?, hfound]
  · intro port t hport ht
    rw [hread] at ht
    exact call.terminals.inputsRead_consumeInputs port t hport ht

/-- A call that shows what its body has left when it signalled exhaustion. -/
theorem abandons_of_ran {fuel : Nat} {callId : CallId} {call : AppliedCall} {d : Description}
    {bodyId : CompositionId} {body : Instance} {ts : Terminals} {log : Log}
    {site : Site} {ran : Ran}
    (hbegins : (begin body.reset (some ts.resetOutputs) log).Begins ctx bodyId [])
    (hprepare : call.terminals.prepare d call.site = (.ok (), ts))
    (hran : runner (steps ctx fuel) (depth + 1) body.reset ts.resetOutputs log
      = some (.error (.exhausted site), ran))
    (hleft : ∀ port, w'.scene.terminal? (.call callId port) = ran.terminals.get? port) :
    Abandons ctx depth w' callId call d bodyId := by
  obtain ⟨b, hrun, rfl⟩ := runner_eq_some hran
  obtain ⟨nested, hreaches⟩ := exists_reaches_of_exhausted hrun
  obtain ⟨ts', hts', -⟩ :=
    Option.map_eq_some_iff.1 (hreaches.keeps.boundary.trans (Option.map_some ..))
  -- the boundary of the body is what the call shows
  have hsame :
      ∀ port, w'.scene.terminal? (.call callId port) = b.scene.terminal? (.boundary port) :=
    fun port => by rw [hleft]; simp [Scene.terminal?, hts']
  have hbegin :
      ∀ port, (begin body.reset (some ts.resetOutputs) log).scene.terminal? (.boundary port)
      = if port.isOutput then (ts.get? port).map Terminal.reset else ts.get? port :=
    ts.get?_resetOutputs
  have hinputs : ∀ port, port.isOutput = false →
      w'.scene.terminal? (.call callId port) = ts.get? port := by
    intro port hport
    rw [hsame, hreaches.boundary_input hbegins.built hport, hbegin, hport]
    rfl
  refine ⟨⟨ts, hprepare, hinputs⟩, fun port p t hinput => ?_, _, b, nested, site,
    hbegins, hreaches, ?_⟩
  · obtain ⟨t', x, ht', hfresh, -, -⟩ := Terminals.exists_prepared hprepare hinput
    exact ⟨t', by rw [hinputs port (Terminals.isOutput_of_input? hinput), ht'], hfresh⟩
  · intro port hport t ht
    rw [hsame] at ht
    refine collects_boundary_of_reaches hreaches (fun fault h => ?_) (fun u hu => ?_) t ht
    · obtain rfl := Except.error.inj h
      trivial
    · rw [hbegin, if_pos hport] at hu
      obtain ⟨u', -, rfl⟩ := Option.map_eq_some_iff.1 hu
      exact .nothing u'.cell.isFresh_clear

theorem exhausted_of_outcomeOf {successor : Successor} {result : Except RunFault Unit}
    (h : outcomeOf successor result = .exhausted) : ∃ site, result = .error (.exhausted site) := by
  unfold outcomeOf at h
  split at h
  · exact absurd h (by simp)
  · split at h
    · exact ⟨_, rfl⟩
    · exact absurd h (by simp)

/-- **An exhausted visit publishes nothing.**  It switches no authority and changes nothing outside
of its call.  If the implementation has signalled exhaustion, the outputs of the call are as they
were and all its inputs are read; if exhaustion has come out of its body, its inputs are fresh and
its outputs hold what the body has pushed. -/
theorem exhausted_of_executes {fuel : Nat} (hbegins : w₀.Begins ctx id inputs)
    (hreaches : Reaches ctx depth w₀ history (.ok (some v.call)) w)
    (hexecutes : Executes ctx (runner (steps ctx fuel)) depth w v r w')
    (houtcome : v.outcome = .exhausted) :
    w'.scene.frame.wiring = w.scene.frame.wiring ∧
      (∀ slot, ¬ slot.Inside v.call → w'.scene.terminal? slot = w.scene.terminal? slot) ∧
      ∃ call d, w.Enters v.call call ∧ ctx.graph.function call.function = .ok d ∧
        ((d.body = none ∧ Signals w w' v.call) ∨
          ∃ bodyId, d.body = some bodyId ∧ Abandons ctx depth w' v.call call d bodyId) := by
  have hne : v.outcome ≠ .completed := by simp [houtcome]
  obtain ⟨hwiring, hothers⟩ := hexecutes.not_completed hne
  refine ⟨hwiring, hothers, ?_⟩
  -- what the call shows afterwards is what its execution has left
  have hshown : ∀ port, w'.scene.terminal? (.call v.call port) = v.terminals.get? port := by
    obtain ⟨s, -, -, hinside, ⟨hc, -⟩ | ⟨-, hw'⟩⟩ := hexecutes.leaves
    · exact absurd hc hne
    · rw [hw']
      exact hinside
  obtain ⟨hingest, hfound, hexecute, hv, hterminals, -⟩ := hexecutes
  rename_i s call result a
  rw [hterminals] at hshown
  have henters : w.Enters v.call call := ⟨s, hingest, hfound⟩
  obtain ⟨site, rfl⟩ := exhausted_of_outcomeOf (hv.symm.trans houtcome)
  obtain ⟨d, hd, ⟨hnone, hread⟩ | ⟨bodyId, body, ts, ran, hid, hbody, hprepare, hran, hleft⟩⟩ :=
    Context.execute_exhausted hexecute
  · rw [hread] at hshown
    exact ⟨call, d, henters, hd,
      .inl ⟨hnone, signals_of_read henters (built_of_reaches hbegins hreaches) hshown⟩⟩
  · rw [hleft] at hshown
    have hdescribes : w.scene.frame.Describes ctx.graph v.call d :=
      Frame.Describes.of_reset_eq
        ((evolves_ingestAll hingest).keeps.frame (hreaches.keeps.closed hbegins.closed))
        ⟨call, hfound, hd⟩
    have hnested := begins_of_bodyOf hbegins hreaches hdescribes hid hbody ts.resetOutputs
      (w.log.visit v.call)
    exact ⟨call, d, henters, hd,
      .inr ⟨bodyId, hid, abandons_of_ran hnested hprepare hran hshown⟩⟩

end Walk

/-! ### A body that gives up -/

namespace Sample

/-- A function without parameters whose implementation signals exhaustion. -/
def stopping : Description :=
  { Description.plain ⟨0⟩ "stop" [] with implementation := some "stop" }

/-- A function of one argument with a body. -/
def searching : Description :=
  { Description.plain ⟨1⟩ "search" [⟨"a", .any, .positional 0, none⟩] with body := some ⟨1⟩ }

/-- A loop node whose body calls the function that signals exhaustion. -/
def abandoned : Context where
  graph := .ofParts "abandoned" [stopping, searching] [
    { id := ⟨0⟩, name := "main", represents := none, starts := [⟨0⟩]
      calls := [⟨⟨0⟩, ⟨1⟩, .loop ⟨0⟩ none, none⟩]
      mappings := [⟨.constant (.bool true), none, .call ⟨0⟩ (.param 0), none, none⟩] },
    { id := ⟨1⟩, name := "body", represents := some ⟨1⟩, starts := [⟨1⟩]
      calls := [⟨⟨1⟩, ⟨0⟩, .stop, none⟩]
      mappings := [] }]
  host :=
    { resolve path :=
        if path = "stop" then some (.reading fun _ => .error .exhausted) else none
      resolveMember _ _ := none }
  checked := true

end Sample

/-- The visit of the loop node is exhausted from inside of its body, and leaves its input fresh. -/
theorem Walk.exhausted_of_executes_sample : ∃ v w',
    Executes Sample.abandoned (runner (steps Sample.abandoned 1)) 0
      (Sample.startOf Sample.abandoned) v
        (.ok none) w' ∧
      v.call = ⟨0⟩ ∧ v.outcome = .exhausted ∧
      (w'.scene.terminal? (.call ⟨0⟩ (.param 0))).any Terminal.isFresh = true ∧
      w'.scene.frame.wiring = (Sample.startOf Sample.abandoned).scene.frame.wiring ∧
      (∀ slot, ¬ slot.Inside v.call →
        w'.scene.terminal? slot = (Sample.startOf Sample.abandoned).scene.terminal? slot) ∧
      ∃ call d, (Sample.startOf Sample.abandoned).Enters v.call call ∧
        Sample.abandoned.graph.function call.function = .ok d ∧
        ((d.body = none ∧ Signals (Sample.startOf Sample.abandoned) w' v.call) ∨
          ∃ bodyId, d.body = some bodyId ∧
            Abandons Sample.abandoned 0 w' v.call call d bodyId) := by
  have hcheck : (Walk.visit Sample.abandoned (runner (steps Sample.abandoned 1)) 0 ⟨0⟩
      (Sample.startOf Sample.abandoned)).any (fun ran => ran.1.toOption == some none &&
        ran.2.log.trace == some [⟨0, ⟨0⟩, ⟨0⟩, ⟨1⟩, .exhausted⟩, ⟨1, ⟨1⟩, ⟨1⟩, ⟨0⟩, .failed⟩] &&
        (ran.2.scene.terminal? (.call ⟨0⟩ (.param 0))).any Terminal.isFresh) = true := by
    decide +kernel
  obtain ⟨⟨r, w'⟩, hvisit, hcheck⟩ := (Option.any_eq_true ..).1 hcheck
  simp only [Bool.and_eq_true, beq_iff_eq] at hcheck
  obtain ⟨⟨hr, htrace⟩, hfresh⟩ := hcheck
  cases r with
  | error fault => exact absurd hr (by simp [Except.toOption])
  | ok next =>
    obtain rfl : next = none := by simpa [Except.toOption] using hr
    rcases visit_cases hvisit with ⟨fault, hfault, -⟩ | ⟨v, hv, hexecutes⟩
    · exact absurd hfault (by simp)
    · have houtcome : v.outcome = .exhausted := by
        obtain ⟨e, nested, hlog, -, -, he, -⟩ := hexecutes.trace (deep_runner _ _)
        rw [htrace, show (Sample.startOf Sample.abandoned).log.trace = some [] from rfl] at hlog
        simp only [Option.map_some, Option.some.injEq, List.cons_append, List.cons.injEq] at hlog
        rw [← he, ← hlog.1]
      have hbegins : (Sample.startOf Sample.abandoned).Begins Sample.abandoned ⟨0⟩ [] :=
        Sample.begins_startOf rfl
      have hreaches : Reaches Sample.abandoned 0 (Sample.startOf Sample.abandoned) []
          (.ok (some v.call)) (Sample.startOf Sample.abandoned) :=
        hv ▸ .seeded (s := (Sample.startOf Sample.abandoned).scene) rfl
      exact ⟨v, w', hexecutes, hv, houtcome, hfresh,
        exhausted_of_executes hbegins hreaches hexecutes houtcome⟩

end CallFlow
