import CallFlow.Proofs.Reuse

/-!
# Authority follows the run

Which group of a slot is authoritative depends on the calls that have completed in the current
run, and on nothing else: it is the group of the last of them that keys one, and the group without
priority if there is none (`Walk.authority_of_reaches`).  So a slot is ingested from that group
(`Flow.resolves`), and the edges of a snapshot show what the trace says
(`Engine.edges_of_standalone`).
-/

namespace CallFlow

namespace Wiring

theorem lastKey?_eq_of_mappings {w w' : Wiring} (h : w'.mappings = w.mappings) (slot : Slot)
    (completed : List CallId) : w'.lastKey? slot completed = w.lastKey? slot completed := by
  have hkeyed : w'.keyedBy slot = w.keyedBy slot := by
    funext call
    rw [keyedBy, group_eq_of_mappings h, keyedBy]
  rw [lastKey?, hkeyed, lastKey?]

/-- A call that was last to key a group of the slot keys a group of it. -/
theorem group_ne_nil_of_lastKey? {w : Wiring} {slot : Slot} {completed : List CallId}
    {call : CallId}
    (h : w.lastKey? slot completed = some call) : w.group slot (some call) ≠ [] := by
  have hkeyed := List.find?_some h
  simpa [keyedBy] using hkeyed

/-- **Without authority in the beginning, the authority of a slot is the last completed call that
keys a group of it**, if there is one. -/
theorem Built.authority?_of_completed {w w₀ : Wiring} (h : w₀.Built) (hreset : w₀.reset = w₀)
    {completed : List CallId} (hw : w = w₀.completeAll completed) {slot : Slot}
    (hslot : ∃ priority, w.group slot priority ≠ []) :
    w.authority? slot = some (w.lastKey? slot completed) := by
  have hmappings : w.mappings = w₀.mappings := by rw [hw, mappings_completeAll]
  have hauthority : w₀.authority? slot = some none := by
    cases ht : Assoc.find? w₀.targets slot with
    | none =>
        obtain ⟨priority, hne⟩ := hslot
        rw [group_eq_of_mappings hmappings] at hne
        exact absurd ((h.find?_eq_none_iff slot).1 ht priority) hne
    | some t =>
        have hfind := find?_reset w₀ slot
        rw [hreset, ht, Option.map_some] at hfind
        have hnone : t.authority = none := by rw [Option.some.inj hfind]
        simp [authority?, ht, hnone]
  rw [lastKey?_eq_of_mappings hmappings, hw, h.authority?_completeAll, hauthority]
  simp

/-- Without authority the group without priority is what counts. -/
theorem Built.current?_of_reset {w : Wiring} (h : w.Built) (hreset : w.reset = w)
    (slot : Slot) : w.current? slot
      = if w.group slot none = [] then none else some (w.group slot none) := by
  rw [h.current?_eq]
  cases ht : Assoc.find? w.targets slot with
  | none => simp [authority?, ht, (h.find?_eq_none_iff slot).1 ht none]
  | some t =>
      have hauthority := h.authority?_of_completed hreset
        (show w = w.completeAll [] from rfl) (h.exists_group ht)
      rw [hauthority]
      rfl

/-- Where groups write a slot, it is ingested from that of its authority, and if there is none the
calls that key groups of the slot are named. -/
theorem Built.authoritative_eq {w : Wiring} (h : w.Built) {slot : Slot} {key : Option CallId}
    (hkey : w.authority? slot = some key) :
    ∃ calls, (∀ call, call ∈ calls ↔ w.keyedBy slot call = true) ∧
      w.authoritative slot = if w.group slot key = [] then .error (.undecided slot calls)
        else .ok (some (w.group slot key)) := by
  obtain ⟨t, ht, rfl⟩ := Option.map_eq_some_iff.1 hkey
  refine ⟨(Assoc.keys t.groups).filterMap id, ?_, ?_⟩
  · intro call
    rw [← h.contains_groups ht call, List.mem_filterMap]
    cases hfind : Assoc.find? t.groups (some call) with
    | none => simpa [Assoc.contains, hfind] using Assoc.find?_eq_none_iff.1 hfind
    | some g =>
        have hmem : (some call) ∈ Assoc.keys t.groups :=
          List.mem_map_of_mem (f := (·.1)) (Assoc.mem_of_find?_eq_some hfind)
        simpa [Assoc.contains, hfind] using hmem
  · have hcurrent := h.current?_eq slot
    rw [hkey, Option.bind_some, current?, ht, Option.bind_some] at hcurrent
    unfold authoritative
    rw [ht]
    simp only [hcurrent]
    split
    · rename_i group hgroup
      split at hgroup
      · exact absurd hgroup (by simp)
      · rename_i hne
        rw [if_neg hne, ← Option.some.inj hgroup]
    · rename_i hgroup
      split at hgroup
      · rename_i hnil
        rw [if_pos hnil]
      · exact absurd hgroup (by simp)

end Wiring

namespace Walk

variable {ctx : Context} {id : CompositionId} {inputs : List (String × Value)} {depth : Nat}
  {w₀ w : Walk} {history : List Visit} {r : Except RunFault (Option CallId)}

theorem built_of_reaches (hbegins : w₀.Begins ctx id inputs)
    (hreaches : Reaches ctx depth w₀ history r w) : w.scene.frame.wiring.Built := by
  rw [hreaches.wiring]
  exact hbegins.built.of_reset_eq (Wiring.reset_completeAll ..)

/-- **In every state that a run reaches, the authority of a slot is the last call that has completed
and keys a group of the slot.** -/
theorem authority_of_reaches (hbegins : w₀.Begins ctx id inputs)
    (hreaches : Reaches ctx depth w₀ history r w) {slot : Slot}
    (hslot : ∃ priority, w.scene.frame.wiring.group slot priority ≠ []) :
    w.scene.frame.wiring.authority? slot
      = some (w.scene.frame.wiring.lastKey? slot (completedCalls history)) :=
  hbegins.built.authority?_of_completed hbegins.reset_wiring hreaches.wiring hslot

end Walk

/-! ## Ingestion -/

/-- Is the fault an ambiguity of a composition? -/
def RunFault.IsAmbiguous : RunFault → Prop
  | .ambiguous _ _ => True
  | _ => False

namespace Terminal

/-- A write that fails was refused by the type. -/
theorem not_ambiguous_writeAll {t : Terminal} {writes : List (Option Strategy × Value)}
    {fault : RunFault} (h : (t.writeAll writes).1 = .error fault) : ¬ fault.IsAmbiguous := by
  obtain ⟨written, rfl⟩ := writeAll_eq_error h
  exact id

end Terminal

namespace Scene

theorem not_ambiguous_readGroup {s : Scene} {g : List Mapping} {fault : RunFault}
    (h : s.readGroup g = .error fault) : ¬ fault.IsAmbiguous := by
  induction g with
  | nil => exact absurd h (by simp [readGroup])
  | cons m rest ih =>
      rcases bind_eq_error h with hread | ⟨v, -, h⟩
      · unfold read at hread
        split at hread
        · split at hread
          · exact absurd hread (by simp)
          · obtain rfl := Except.error.inj hread
            exact id
        · exact absurd hread (by simp)
      · rcases bind_eq_error h with hrest | ⟨writes, -, h⟩
        · exact ih hrest
        · cases h

end Scene

namespace Flow

/-- How a slot is ingested whose authority has the key: from the group of the key, where the only
ambiguity can be that the slot does not exist.  Without such a group there is no key, and the calls
that key groups of the slot are named. -/
structure Resolves (s : Scene) (slot : Slot) (key : Option CallId) : Prop where
  reads : s.frame.wiring.group slot key ≠ [] →
    (ingest slot).run s = (writeGroup slot (s.frame.wiring.group slot key)).run s
  undecided : s.frame.wiring.group slot key = [] → key = none ∧
    ∃ calls, (∀ call, call ∈ calls ↔ s.frame.wiring.keyedBy slot call = true) ∧
      (ingest slot).run s
        = (.error (.ambiguous s.frame.wiring.composition (.undecided slot calls)), s)
  ambiguous : (∃ fault s', (ingest slot).run s = (.error fault, s') ∧ fault.IsAmbiguous) ↔
    s.frame.wiring.group slot key = [] ∨
      s.terminal? slot = none ∧
        ∃ writes, writes ≠ [] ∧ s.readGroup (s.frame.wiring.group slot key) = .ok writes

/-- A group that is read and written is ambiguous only if there is something to write and nothing to
write it to. -/
theorem ambiguous_writeGroup_iff (s : Scene) (slot : Slot) (g : List Mapping) :
    (∃ fault s', (writeGroup slot g).run s = (.error fault, s') ∧ fault.IsAmbiguous) ↔
      s.terminal? slot = none ∧ ∃ writes, writes ≠ [] ∧ s.readGroup g = .ok writes := by
  rw [run_writeGroup]
  constructor
  · rintro ⟨fault, s', h, hambiguous⟩
    split at h
    · rename_i writes hread
      cases writes with
      | nil => exact absurd h (by simp [Scene.write])
      | cons first rest =>
          unfold Scene.write at h
          cases ht : s.terminal? slot with
          | none => exact ⟨rfl, first :: rest, by simp, hread⟩
          | some t =>
              simp only [ht, Prod.mk.injEq] at h
              cases hwrite : (t.writeAll (first :: rest)).1 with
              | ok _ => exact absurd h.1 (by simp [hwrite, Except.map])
              | error fault' =>
                  simp only [hwrite, Except.map, Except.error.injEq] at h
                  exact absurd (h.1 ▸ hambiguous) (Terminal.not_ambiguous_writeAll hwrite)
    · rename_i fault' hread
      obtain ⟨hfault, -⟩ := Prod.mk.inj h
      obtain rfl := Except.error.inj hfault
      exact absurd hambiguous (Scene.not_ambiguous_readGroup hread)
  · rintro ⟨ht, writes, hne, hread⟩
    obtain ⟨first, rest, rfl⟩ := List.exists_cons_of_ne_nil hne
    rw [hread]
    exact ⟨.ambiguous s.frame.id (.missing slot), s, by simp [Scene.write, ht], trivial⟩

/-- **A slot is ingested as its authority says.** -/
theorem resolves {s : Scene} (h : s.frame.wiring.Built) {slot : Slot} {key : Option CallId}
    (hauthority : s.frame.wiring.authority? slot = some key)
    (hkey : ∀ call, key = some call → s.frame.wiring.group slot key ≠ []) :
    Resolves s slot key := by
  obtain ⟨calls, hcalls, heq⟩ := h.authoritative_eq hauthority
  have hrun := run_ingest slot s
  by_cases hnil : s.frame.wiring.group slot key = []
  · rw [heq, if_pos hnil] at hrun
    refine ⟨fun hne => absurd hnil hne, fun _ => ⟨?_, calls, hcalls, hrun⟩,
      fun _ => .inl hnil, fun _ => ⟨_, s, hrun, trivial⟩⟩
    cases key with
    | none => rfl
    | some call => exact absurd hnil (hkey call rfl)
  · rw [heq, if_neg hnil] at hrun
    refine ⟨fun _ => hrun, fun hc => absurd hc hnil, ?_⟩
    rw [hrun]
    exact (ambiguous_writeGroup_iff s slot _).trans ⟨.inr, fun h => h.resolve_left hnil⟩

end Flow

/-! ## Edges of a snapshot -/

namespace Wiring

/-- The last call that was traced as completed at the depth of a run among those that key groups of
the slot that the mapping writes. -/
def tracedKey? (w : Wiring) (m : Mapping) (trace : List TraceEntry) : Option CallId :=
  (Slot.of? m.target).bind fun slot =>
    w.lastKey? slot
      ((trace.reverse.filter fun e => e.depth == 0 && e.outcome == .completed).map (·.call))

/-- An edge takes part if its mapping accumulates or has the priority of the authority of its
slot. -/
theorem Built.edges_eq {w : Wiring} (h : w.Built) {key : Slot → Option CallId}
    (hkey : ∀ slot, (∃ priority, w.group slot priority ≠ []) →
      w.authority? slot = some (key slot)) :
    w.edges = w.mappings.map fun m =>
      (m, m.isAccumulating || m.priority == (Slot.of? m.target).bind key) := by
  apply List.map_congr_left
  intro m hm
  obtain ⟨slot, hslot, -⟩ := h.exists_slot hm
  rw [hslot, Option.bind_some, Option.bind_some]
  cases ht : Assoc.find? w.targets slot with
  | none =>
      have hacc : m.isAccumulating = true := by
        apply Classical.byContradiction
        intro hacc
        have hmem : m ∈ w.group slot m.priority :=
          mem_group.2 ⟨hm, by simpa using hacc, hslot, rfl⟩
        rw [(h.find?_eq_none_iff slot).1 ht m.priority] at hmem
        exact absurd hmem (by simp)
      simp [hacc]
  | some t =>
      have hauthority : t.authority = key slot := by
        have hsome := hkey slot (h.exists_group ht)
        rw [authority?, ht, Option.map_some] at hsome
        exact Option.some.inj hsome
      simp only [hauthority]
      rw [BEq.comm]

end Wiring

namespace Walk

variable {ctx : Context} {fuel depth : Nat} {w₀ w : Walk} {r : Except RunFault Unit}

/-- What a run leaves: the wiring after the calls that have completed, and these in the trace. -/
theorem exists_history (h : run ctx fuel depth w₀ = some (r, w)) :
    ∃ history entries,
      w.scene.frame.wiring = w₀.scene.frame.wiring.completeAll (completedCalls history) ∧
      w.log.trace = w₀.log.trace.map (entries ++ ·) ∧
      (entries.filter fun e => e.depth == depth).map (fun e => (e.call, e.outcome))
        = history.map fun v => (v.call, v.outcome) := by
  rcases around_eq_some h with ⟨fault, s, hseed, -, rfl⟩ | ⟨s, r₁, w₁, hseed, hsteps, hend⟩
  · have hseeded := (Flow.evolves_seed w₀.scene).wiring
    rw [hseed] at hseeded
    exact ⟨[], [], hseeded, by simp, rfl⟩
  · obtain ⟨history, hreaches⟩ := steps_reaches (.seeded hseed) hsteps
    obtain ⟨entries, htrace, hentries⟩ := hreaches.trace
    rcases hend with ⟨-, rfl, -⟩ | ⟨s₁, -, -, hfinish, rfl⟩
    · exact ⟨history, entries, hreaches.wiring, htrace, hentries⟩
    · have hfinished := (Flow.evolves_finish w₁.scene).wiring
      rw [hfinish] at hfinished
      exact ⟨history, entries, hfinished.trans hreaches.wiring, htrace, hentries⟩

/-- The completed calls of a history are those that its entries say have completed. -/
theorem completedCalls_eq_of_entries {entries : List TraceEntry} {history : List Visit}
    (h : (entries.filter fun e => e.depth == depth).map (fun e => (e.call, e.outcome))
      = history.map fun v => (v.call, v.outcome)) :
    completedCalls history
      = (entries.filter fun e => e.depth == depth && e.outcome == .completed).map (·.call) := by
  calc completedCalls history
      = ((history.map fun v => (v.call, v.outcome)).filter fun p => p.2 == .completed).map
        (·.1) := by
        simp [completedCalls, List.filter_map, Function.comp_def]
    _ = ((entries.filter fun e => e.depth == depth).filter fun e => e.outcome == .completed).map
          (·.call) := by
        rw [← h]
        simp [List.filter_map, Function.comp_def]
    _ = _ := by
        rw [List.filter_filter]
        congr 2
        funext e
        exact Bool.and_comm ..

end Walk

namespace Engine

variable {e e' : Engine} {fuel : Nat} {id : CompositionId} {inputs : List (String × Value)}
  {c : Composition} {f f' : Frame} {r : Except RunFault (List (String × Value))}

/-- A standalone execution whose inputs could be bound has run the composition, and the engine
reports the walk that is left. -/
theorem exists_walk_of_standalone (hc : e.context.graph.composition id = .ok c)
    (hrepresents : c.represents = none)
    (hf : Frame.ofGraph e.context.graph id e.context.checked = .ok f)
    (hbind : bindVariables f.reset inputs = .ok f')
    (h : e.executeWithin fuel (.composition id) inputs = some (r, e')) :
    ∃ result w, Walk.run e.context fuel 0 (Walk.begin (.mk f' [] []) none (Log.start e.tracing))
        = some (result, w) ∧
      e'.snapshot? = some w.toInstance.snapshot ∧ e'.trace? = w.log.trace.map List.reverse := by
  unfold executeWithin runTarget runStandalone at h
  simp only [hc, hrepresents, hf, hbind] at h
  cases hrun : Walk.run e.context fuel 0
      (Walk.begin (.mk f' [] []) none (Log.start e.tracing)) with
  | none => simp [hrun] at h
  | some ran =>
      obtain ⟨result, w⟩ := ran
      simp only [hrun, Option.some.injEq, Prod.mk.injEq] at h
      obtain ⟨-, rfl⟩ := h
      exact ⟨result, w, rfl, rfl, rfl⟩

/-- **After a standalone execution the edges of the snapshot show what the trace says**, whether or
not the execution has succeeded. -/
theorem edges_of_standalone (htracing : e.tracing = true)
    (hc : e.context.graph.composition id = .ok c) (hrepresents : c.represents = none)
    (hf : Frame.ofGraph e.context.graph id e.context.checked = .ok f)
    (hbind : bindVariables f.reset inputs = .ok f')
    (h : e.executeWithin fuel (.composition id) inputs = some (r, e')) :
    ∃ snapshot trace, e'.snapshot? = some snapshot ∧ e'.trace? = some trace ∧
      snapshot.view.edges = f.wiring.mappings.map fun m =>
        m.view (m.isAccumulating || m.priority == f.wiring.tracedKey? m trace) := by
  obtain ⟨result, w, hrun, hsnapshot, htrace'⟩ :=
    exists_walk_of_standalone hc hrepresents hf hbind h
  obtain ⟨history, entries, hwiring, htrace, hentries⟩ := Walk.exists_history hrun
  have hf' : f'.wiring = f.wiring := by
    rw [Frame.eq_of_bindVariables hbind, Frame.reset_of_ofGraph hf]
  have hwiring' : w.scene.frame.wiring = f.wiring.completeAll (Walk.completedCalls history) := by
    rw [← hf']
    exact hwiring
  have hmappings : w.scene.frame.wiring.mappings = f.wiring.mappings := by
    rw [hwiring', Wiring.mappings_completeAll]
  have hbuilt := Frame.built_of_ofGraph hf
  have hedges : w.scene.frame.wiring.edges = w.scene.frame.wiring.mappings.map fun m =>
      (m, m.isAccumulating || m.priority == (Slot.of? m.target).bind fun slot =>
        w.scene.frame.wiring.lastKey? slot (Walk.completedCalls history)) := by
    refine Wiring.Built.edges_eq ?_ fun slot hslot =>
      hbuilt.authority?_of_completed (Frame.reset_wiring_of_ofGraph hf) hwiring' hslot
    rw [hwiring']
    exact hbuilt.of_reset_eq (Wiring.reset_completeAll ..)
  have hstart : (Log.start e.tracing).trace = some [] := by rw [htracing]; rfl
  refine ⟨w.toInstance.snapshot, entries.reverse, hsnapshot, ?_, ?_⟩
  · rw [htrace', htrace]
    simp [Walk.begin, hstart]
  · change w.scene.frame.wiring.edges.map _ = _
    rw [hedges, List.map_map, hmappings]
    apply List.map_congr_left
    intro m _
    simp only [Function.comp_apply, Wiring.tracedKey?, List.reverse_reverse,
      Wiring.lastKey?_eq_of_mappings hmappings, Walk.completedCalls_eq_of_entries hentries]

end Engine

/-! ## Authority and the run -/

/-- **Authority follows the run.**  In every state that a run reaches, the authority of a slot that
groups write is the last call that has completed and keys a group of the slot, and the slot is
ingested as that authority says, whatever else a scene with the same wiring holds.  After a
standalone execution with tracing the edges of the snapshot show the same of the trace. -/
theorem authority_follows_run :
    (∀ {ctx : Context} {id : CompositionId} {inputs : List (String × Value)}
      {depth : Nat} {w₀ w : Walk}
        {history : List Walk.Visit} {r : Except RunFault (Option CallId)},
      w₀.Begins ctx id inputs → Walk.Reaches ctx depth w₀ history r w →
      ∀ slot : Slot, (∃ priority, w.scene.frame.wiring.group slot priority ≠ []) →
        w.scene.frame.wiring.authority? slot
            = some (w.scene.frame.wiring.lastKey? slot (Walk.completedCalls history)) ∧
          ∀ s : Scene, s.frame.wiring = w.scene.frame.wiring →
            Flow.Resolves s slot
              (w.scene.frame.wiring.lastKey? slot (Walk.completedCalls history))) ∧
    (∀ {e e' : Engine} {fuel : Nat} {id : CompositionId} {inputs : List (String × Value)}
        {c : Composition} {f f' : Frame} {r : Except RunFault (List (String × Value))},
      e.tracing = true → e.context.graph.composition id = .ok c → c.represents = none →
      Frame.ofGraph e.context.graph id e.context.checked = .ok f →
      Engine.bindVariables f.reset inputs = .ok f' →
      e.executeWithin fuel (.composition id) inputs = some (r, e') →
      ∃ snapshot trace, e'.snapshot? = some snapshot ∧ e'.trace? = some trace ∧
        snapshot.view.edges = f.wiring.mappings.map fun m =>
          m.view (m.isAccumulating || m.priority == f.wiring.tracedKey? m trace)) := by
  refine ⟨fun hbegins hreaches slot hslot => ?_, Engine.edges_of_standalone⟩
  have hauthority := Walk.authority_of_reaches hbegins hreaches hslot
  refine ⟨hauthority, ?_⟩
  intro s hs
  rw [← hs] at hauthority ⊢
  refine Flow.resolves ?_ hauthority ?_
  · rw [hs]
    exact Walk.built_of_reaches hbegins hreaches
  · intro call hcall
    rw [hcall]
    exact Wiring.group_ne_nil_of_lastKey? hcall

namespace Sample

theorem begins_startOf {ctx : Context}
    (h : Frame.ofGraph ctx.graph ⟨0⟩ ctx.checked = .ok (frameOf ctx)) :
    (startOf ctx).Begins ctx ⟨0⟩ [] :=
  .standalone h (by rw [Frame.reset_of_ofGraph h, Engine.bindVariables])

/-- The run that goes through both completed visits of the branch. -/
theorem reaches : ∃ v₀ v₂ w, Walk.Reaches context 0 (startOf context) [v₂, v₀] (.ok none) w ∧
    v₀.call = ⟨0⟩ ∧ v₀.outcome = .completed ∧ v₂.call = ⟨2⟩ ∧ v₂.outcome = .completed ∧
    (w.scene.peek (.variable "flag")).map Value.truthy = some false ∧
    w.scene.peek (.variable "v") = none := by
  have hcheck : (Walk.run context 2 0 (startOf context)).any (fun ran => ran.1.isOk &&
      ran.2.log.trace == some [⟨0, ⟨0⟩, ⟨2⟩, ⟨0⟩, .completed⟩, ⟨0, ⟨0⟩, ⟨0⟩, ⟨0⟩, .completed⟩] &&
      (ran.2.scene.peek (.variable "flag")).map Value.truthy == some false &&
      (ran.2.scene.peek (.variable "v")).isNone) = true := by decide +kernel
  obtain ⟨⟨r, w⟩, hrun, hcheck⟩ := (Option.any_eq_true ..).1 hcheck
  simp only [Bool.and_eq_true, beq_iff_eq, Option.isNone_iff_eq_none] at hcheck
  obtain ⟨⟨⟨hok, htrace⟩, hflag⟩, hv⟩ := hcheck
  cases r with
  | error fault => exact absurd hok (by simp [Except.isOk, Except.toBool])
  | ok _ =>
    rcases Walk.around_eq_some hrun with ⟨fault, s, -, hr, -⟩ | ⟨s, r₁, w₁, hseed, hsteps, hend⟩
    · exact absurd hr (by simp)
    · obtain ⟨history, hreaches⟩ := Walk.steps_reaches (.seeded hseed) hsteps
      rcases hend with ⟨rfl, rfl, -⟩ | ⟨s₁, rfl, hboundary, -⟩
      · obtain ⟨entries, hentries, hfilter⟩ := hreaches.trace
        rw [htrace, show (startOf context).log.trace = some [] from rfl] at hentries
        simp only [Option.map_some, List.append_nil, Option.some.injEq] at hentries
        rw [← hentries] at hfilter
        rcases history with _ | ⟨v₂, _ | ⟨v₀, _ | _⟩⟩ <;> simp at hfilter
        exact ⟨v₀, v₂, w, hreaches, hfilter.2.1.symm, hfilter.2.2.symm, hfilter.1.1.symm,
          hfilter.1.2.symm, hflag, hv⟩
      · have hkept := (Walk.keeps_steps hsteps).boundary
        have hseeded := (Flow.evolves_seed (startOf context).scene).boundary
        rw [hseed] at hseeded
        rw [hseeded, show (startOf context).scene.boundary = none from rfl] at hkept
        exact absurd (by simpa using hkept) hboundary

/-- A composition with a mapping into a parameter that its call does not have. -/
def stray : Context where
  graph := .ofParts "stray" [negation] [{
    id := ⟨0⟩, name := "stray", represents := none, starts := [⟨0⟩]
    calls := [⟨⟨0⟩, ⟨0⟩, .stop, none⟩]
    mappings := [
      ⟨.constant (.int 1), none, .call ⟨0⟩ (.param 0), none, none⟩,
      ⟨.constant (.int 1), none, .call ⟨0⟩ (.param 5), none, none⟩] }]
  host := host
  checked := true

end Sample

/-- Both parts hold of the branch. -/
theorem authority_follows_run_sample :
    (∃ v₀ v₂ w,
      Walk.Reaches Sample.context 0 (Sample.startOf Sample.context) [v₂, v₀] (.ok none) w ∧
      w.scene.frame.wiring.authority? (.variable "flag") = some
          (w.scene.frame.wiring.lastKey? (.variable "flag") (Walk.completedCalls [v₂, v₀])) ∧
        ∀ s : Scene, s.frame.wiring = w.scene.frame.wiring →
          Flow.Resolves s (.variable "flag")
            (w.scene.frame.wiring.lastKey? (.variable "flag") (Walk.completedCalls [v₂, v₀]))) ∧
    ∃ r e' snapshot trace,
      (Engine.new Sample.context.graph Sample.host { tracing := true }).executeWithin 2
          (.composition ⟨0⟩) [] = some (r, e') ∧
        e'.snapshot? = some snapshot ∧ e'.trace? = some trace ∧
        snapshot.view.edges = (Sample.frameOf Sample.context).wiring.mappings.map fun m =>
          m.view (m.isAccumulating
            || m.priority == (Sample.frameOf Sample.context).wiring.tracedKey? m trace) := by
  constructor
  · obtain ⟨v₀, v₂, w, hreaches, -⟩ := Sample.reaches
    have hmappings : w.scene.frame.wiring.mappings
        = (Sample.frameOf Sample.context).wiring.mappings := by
      rw [hreaches.wiring, Wiring.mappings_completeAll]
      rfl
    have hslot : ∃ priority, w.scene.frame.wiring.group (.variable "flag") priority ≠ [] :=
      ⟨none, by rw [Wiring.group_eq_of_mappings hmappings]; exact List.cons_ne_nil _ _⟩
    exact ⟨v₀, v₂, w, hreaches, authority_follows_run.1 (Sample.begins_startOf Sample.ofGraph_eq)
      hreaches (.variable "flag") hslot⟩
  · have hcheck : ((Engine.new Sample.context.graph Sample.host { tracing := true }).executeWithin 2
        (.composition ⟨0⟩) []).isSome = true := by decide +kernel
    obtain ⟨⟨r, e'⟩, hexecute⟩ := Option.isSome_iff_exists.1 hcheck
    obtain ⟨snapshot, trace, hsnapshot⟩ := authority_follows_run.2 rfl rfl rfl Sample.ofGraph_eq
      (by rw [Frame.reset_of_ofGraph Sample.ofGraph_eq, Engine.bindVariables]) hexecute
    exact ⟨r, e', snapshot, trace, hexecute, hsnapshot⟩

/-- A slot with a group that counts can be ambiguous all the same: mappings may write a parameter
that the call does not have. -/
theorem ambiguous_of_missing_parameter :
    (Sample.startOf Sample.stray).Begins Sample.stray ⟨0⟩ [] ∧
    Walk.Reaches Sample.stray 0 (Sample.startOf Sample.stray) [] (.ok (some ⟨0⟩))
      (Sample.startOf Sample.stray) ∧
    (Sample.startOf Sample.stray).scene.frame.wiring.group (.call ⟨0⟩ (.param 5)) none ≠ [] ∧
    (Sample.startOf Sample.stray).scene.frame.wiring.authority? (.call ⟨0⟩ (.param 5)) = some none ∧
    ∃ fault s', (Flow.ingest (.call ⟨0⟩ (.param 5))).run (Sample.startOf Sample.stray).scene
      = (.error fault, s') ∧ fault.IsAmbiguous :=
  ⟨Sample.begins_startOf rfl, .seeded (s := (Sample.startOf Sample.stray).scene) rfl,
    List.cons_ne_nil _ _, rfl, _, _, rfl, trivial⟩

end CallFlow
