import CallFlow.Proofs.Builder
import CallFlow.Proofs.Faults
import CallFlow.Proofs.Reach
import CallFlow.Proofs.Stages

/-!
# Executions find what they need

An execution fails for want of structure if it looks for a definition or writes a slot that does
not exist (`RunFault.IsStructural`).  In a graph in which whatever is named is there
(`Graph.Resolved`) no execution does, since at every stage that it passes, at every depth, what
comes next is there (`Stage.Furnished`); graphs that were built are such graphs
(`Engine.structured_of_buildable`).

The argument has three parts.  A frame that was set up from a resolved graph applies its start
and, with every call, all successors, and each slot that its mappings write is one that a
description declares (`Scene.furnished_of_ofGraph`); for slots of the boundary this is the
description of the call around the composition, which is the function that the composition
represents (`Context.Serves`).  Between two stages the same is declared, so that scenes stay
furnished (`Scene.Furnished.of_reset_eq`).  And whatever fails in a furnished scene fails for
another reason, in the visits themselves (`Walk.not_isStructural_visit`) and, by induction on the
fuel, in the runs of bodies (`Walk.safe_runner`).
-/

namespace CallFlow

/-! ## Faults of structure -/

/-- Does the fault say that something does not exist: a definition, or a slot that is written? -/
def RunFault.IsStructural : RunFault → Prop
  | .graph _ | .ambiguous _ (.missing _) => True
  | _ => False

theorem RunFault.OfValues.not_isStructural {fault : RunFault} (h : fault.OfValues) :
    ¬ fault.IsStructural := by
  cases fault <;> first | exact id | exact absurd h id

namespace Wiring

theorem ne_missing_of_groupFault? {slot slot' : Slot} {priority : Option CallId}
    {group : List Mapping}
    {reason : Ambiguity} (h : groupFault? slot priority group = some reason) :
    reason ≠ .missing slot' := by
  unfold groupFault? at h
  simp only [] at h
  split at h
  · simp [← Option.some.inj h]
  · split at h
    · simp [← Option.some.inj h]
    · obtain ⟨strategy, -, rfl⟩ := Option.map_eq_some_iff.1 h
      simp

theorem ne_missing_of_targetFault? {slot slot' : Slot} {appended : Bool}
    {groups : List (Option CallId × List Mapping)} {reason : Ambiguity}
    (h : targetFault? slot appended groups = some reason) : reason ≠ .missing slot' := by
  induction groups with
  | nil => exact absurd h (by simp [targetFault?])
  | cons entry rest ih =>
      obtain ⟨priority, group⟩ := entry
      rw [targetFault?] at h
      split at h
      · rename_i fault hfault
        obtain rfl := Option.some.inj h
        exact ne_missing_of_groupFault? hfault
      · split at h
        · simp [← Option.some.inj h]
        · exact ih h

theorem ne_missing_of_fault? {slot : Slot} {appended : List Slot} {targets : Assoc Slot Target}
    {reason : Ambiguity} (h : fault? appended targets = some reason) : reason ≠ .missing slot := by
  induction targets with
  | nil => exact absurd h (by simp [fault?])
  | cons entry rest ih =>
      obtain ⟨slot', target⟩ := entry
      rw [fault?] at h
      split at h
      · rename_i fault hfault
        obtain rfl := Option.some.inj h
        exact ne_missing_of_targetFault? hfault
      · exact ih h

/-- Mappings that cannot be grouped are in each other's way; that a slot exists is not looked at. -/
theorem ne_missing_of_build {composition : CompositionId} {ms : List Mapping} {slot : Slot}
    {reason : Ambiguity} (h : build composition ms = .error reason) : reason ≠ .missing slot := by
  unfold build at h
  rcases bind_eq_error h with hslots | ⟨slots, -, h⟩
  · obtain ⟨m, -, hm⟩ := exists_of_mapM_eq_error hslots
    unfold slotOf at hm
    split at hm
    · split at hm
      · exact absurd hm (by simp)
      · simp [← Except.error.inj hm]
    · simp [← Except.error.inj hm]
  · simp only [] at h
    split at h
    · rename_i fault hfault
      obtain rfl := Except.error.inj h
      exact ne_missing_of_fault? hfault
    · exact absurd h (by simp)

end Wiring

/-! ## Definitions that are found -/

theorem Composition.call?_of_mem {c : Composition} (hnodup : (c.calls.map (·.id)).Nodup)
    {decl : CallDecl}
    (h : decl ∈ c.calls) : c.call? decl.id = some decl := by
  unfold call?
  generalize c.calls = calls at *
  induction calls with
  | nil => exact absurd h (by simp)
  | cons first rest ih =>
      obtain ⟨hfresh, hrest⟩ := List.nodup_cons.1 hnodup
      rcases List.mem_cons.1 h with rfl | hmem
      · simp
      · have hne : first.id ≠ decl.id := by
          intro heq
          exact hfresh (List.mem_map.2 ⟨decl, hmem, heq.symm⟩)
        rw [List.find?_cons_of_neg (by simpa using hne)]
        exact ih hrest hmem

namespace Graph

variable {g : Graph} {id : CompositionId} {c : Composition}

theorem startOf_eq_ok (hc : g.composition id = .ok c) {start : CallId}
    (h : g.startOf id = .ok (some start)) : c.starts = [start] := by
  unfold startOf at h
  simp only [hc] at h
  split at h
  · exact absurd h (by simp)
  · rename_i start' hstarts
    obtain rfl : start' = start := by simpa using h
    exact hstarts
  · exact absurd h (by simp)

theorem startOf_eq_none (hc : g.composition id = .ok c) (h : g.startOf id = .ok none) :
    c.starts = [] := by
  unfold startOf at h
  simp only [hc] at h
  split at h
  · assumption
  · exact absurd h (by simp)
  · exact absurd h (by simp)

/-- A composition that is there has no start only if it has several. -/
theorem startOf_eq_error (hc : g.composition id = .ok c) {fault : GraphFault}
    (h : g.startOf id = .error fault) : fault = .severalStarts id c.starts := by
  unfold startOf at h
  simp only [hc] at h
  split at h
  · exact absurd h (by simp)
  · exact absurd h (by simp)
  · exact (Except.error.inj h).symm

/-- The used calls are the start and, with every call, all to which its edges lead. -/
theorem closed_usedCalls (hc : g.composition id = .ok c) {used : List CallId}
    (h : g.usedCalls id = .ok used) : Composition.Follows c.edges used ∧
      ∀ start, g.startOf id = .ok (some start) → start ∈ used := by
  obtain ⟨c', hc', h⟩ := bind_eq_ok h
  obtain rfl : c = c' := Except.ok.inj (hc.symm.trans hc')
  obtain ⟨start?, hstart, h⟩ := bind_eq_ok h
  cases start? with
  | none =>
      obtain rfl := Except.ok.inj h
      exact ⟨fun e _ hsource => absurd hsource (by simp), fun start h =>
        absurd (hstart.symm.trans h) (by simp)⟩
  | some start =>
      obtain rfl := Except.ok.inj h
      obtain ⟨hmem, hfollows⟩ := c.closed_reachFrom start
      refine ⟨hfollows, fun start' h => ?_⟩
      obtain rfl : start = start' := by simpa using hstart.symm.trans h
      exact hmem

theorem usedCalls_eq_error (hc : g.composition id = .ok c) {fault : GraphFault}
    (h : g.usedCalls id = .error fault) : g.startOf id = .error fault := by
  rcases bind_eq_error h with h | ⟨c', -, h⟩
  · exact absurd (hc.symm.trans h) (by simp)
  · rcases bind_eq_error h with h | ⟨start?, -, h⟩
    · exact h
    · cases start? <;> cases h

end Graph

/-! ## Frames of resolved graphs -/

/-- The endpoint that addresses the slot. -/
def Slot.endpoint : Slot → Endpoint
  | .call id port => .call id port
  | .boundary port => .boundary port
  | .variable name => .variable name

theorem Slot.eq_endpoint {e : Endpoint} {slot : Slot} (h : Slot.of? e = some slot) :
    e = slot.endpoint := by
  cases e with
  | constant c => exact absurd h (by simp [of?])
  | call id port =>
      cases h
      rfl
  | boundary port =>
      cases h
      rfl
  | «variable» name =>
      cases h
      rfl

namespace Frame

variable {g : Graph} {id : CompositionId} {checked : Bool} {f : Frame} {c : Composition}

/-- **A composition of a resolved graph can be set up**, or it has several starts, or its mappings
get in each other's way. -/
theorem not_isStructural_ofGraph (hg : g.Resolved) (hc : g.composition id = .ok c)
    {fault : RunFault}
    (h : ofGraph g id checked = .error fault) : ¬ fault.IsStructural := by
  have hstart : ∀ {e}, g.startOf id = .error e → ¬ (RunFault.ofGraph e).IsStructural := fun h => by
    rw [Graph.startOf_eq_error hc h]
    exact fun h => h
  rcases ofGraph_eq_error h with ⟨e, rfl, h | h | h | ⟨c', used, decl, hc', -, hdecl, -, h⟩⟩
    | ⟨c', used, reason, -, -, hbuild, rfl⟩
  · exact absurd (hc.symm.trans h) (by simp)
  · exact hstart h
  · exact hstart (Graph.usedCalls_eq_error hc h)
  · obtain rfl : c = c' := Except.ok.inj (hc.symm.trans hc')
    obtain ⟨d, hd⟩ := (hg.compositions id c hc).2.functions decl hdecl
    exact absurd (hd.symm.trans h) (by simp)
  · cases reason with
    | missing slot => exact absurd rfl (Wiring.ne_missing_of_build hbuild)
    | _ => exact fun h => h

/-- A used call of which there is a declaration is applied. -/
theorem contains_applyCalls {used : List CallId} {calls calls' : Assoc CallId AppliedCall}
    {decls : List CallDecl} (h : applyCalls g checked used calls decls = .ok calls') {call : CallId}
    (hcall : Assoc.contains calls call = true ∨ call ∈ used ∧ ∃ decl ∈ decls, decl.id = call) :
    Assoc.contains calls' call = true := by
  induction decls generalizing calls with
  | nil =>
      obtain rfl := Except.ok.inj h
      rcases hcall with hcall | ⟨-, decl, hdecl, -⟩
      · exact hcall
      · exact absurd hdecl (by simp)
  | cons first rest ih =>
      rw [applyCalls] at h
      split at h
      · split at h
        · exact absurd h (by simp)
        · refine ih h ?_
          rw [Assoc.contains, Assoc.find?_insert]
          rcases hcall with hcall | ⟨hused, decl, hdecl, hid⟩
          · left
            split
            · rfl
            · exact hcall
          · rcases List.mem_cons.1 hdecl with rfl | hdecl
            · exact .inl (by simp [hid])
            · exact .inr ⟨hused, decl, hdecl, hid⟩
      · rename_i hunused
        rcases hcall with hcall | ⟨hused, decl, hdecl, hid⟩
        · exact ih h (.inl hcall)
        · rcases List.mem_cons.1 hdecl with rfl | hdecl
          · exact absurd (List.contains_iff_mem.2 (hid ▸ hused)) hunused
          · exact ih h (.inr ⟨hused, decl, hdecl, hid⟩)

/-- A slot that mappings of a frame write exists in the composition, and is not one of a call that
is left out. -/
theorem offers_of_writes (hg : g.Resolved) (hf : ofGraph g id checked = .ok f) {slot : Slot}
    (hwrites : f.wiring.Writes slot) :
    ∃ c used, g.composition id = .ok c ∧ g.usedCalls id = .ok used ∧
      isLive used slot.endpoint = true ∧ g.Offers c slot.endpoint := by
  obtain ⟨c, used, hc, hused, -, -, hbuild, -, -⟩ := ofGraph_eq_ok hf
  obtain ⟨m, hm, htarget⟩ := (Wiring.built_of_build hbuild).exists_mapping_of_writes hwrites
  rw [Wiring.mappings_of_build hbuild] at hm
  obtain ⟨hm, hlive⟩ := List.mem_filter.1 hm
  rw [Slot.eq_endpoint htarget, Bool.and_eq_true] at hlive
  refine ⟨c, used, hc, hused, hlive.2, ?_⟩
  rw [← Slot.eq_endpoint htarget]
  exact (hg.compositions id c hc).2.mappings m hm

/-- A used call of the composition is applied, with the ports of its function. -/
theorem exists_applied (hg : g.Resolved) (hf : ofGraph g id checked = .ok f)
    (hc : g.composition id = .ok c) {used : List CallId} (hused : g.usedCalls id = .ok used)
    {call : CallId} (hmem : call ∈ used) {decl : CallDecl} (hdecl : c.call? call = some decl) :
    ∃ applied d, Assoc.find? f.calls call = some applied ∧ g.function decl.function = .ok d ∧
      applied = .ofDescription d (.call call) decl.successor decl.label checked := by
  obtain ⟨c', used', hc', hused', -, hcalls, -, -, -⟩ := ofGraph_eq_ok hf
  obtain rfl : c = c' := Except.ok.inj (hc.symm.trans hc')
  obtain rfl : used = used' := Except.ok.inj (hused.symm.trans hused')
  have hid : decl.id = call := by simpa using List.find?_some hdecl
  have hcontains : Assoc.contains f.calls call = true :=
    contains_applyCalls hcalls (.inr ⟨hmem, decl, List.mem_of_find?_eq_some hdecl, hid⟩)
  obtain ⟨applied, happlied⟩ := Option.isSome_iff_exists.1 hcontains
  rcases find?_applyCalls hcalls happlied with hnone | ⟨-, decl', hdecl', hid', d, hd, heq⟩
  · exact absurd hnone (by simp)
  · -- identities of calls are unique
    have hsame := Composition.call?_of_mem (hg.compositions id c hc).2.nodup hdecl'
    rw [hid', hdecl] at hsame
    obtain rfl := Option.some.inj hsame
    exact ⟨applied, d, happlied, hd, heq⟩

theorem contains_of_used (hg : g.Resolved) (hf : ofGraph g id checked = .ok f)
    (hc : g.composition id = .ok c) {used : List CallId} (hused : g.usedCalls id = .ok used)
    {call : CallId} (hmem : call ∈ used) (hcall : c.hasCall call = true) :
    Assoc.contains f.calls call = true := by
  obtain ⟨decl, hdecl⟩ := Option.isSome_iff_exists.1 hcall
  obtain ⟨applied, d, happlied, -⟩ := exists_applied hg hf hc hused hmem hdecl
  simp [Assoc.contains, happlied]

/-- The start of a frame is applied. -/
theorem contains_start (hg : g.Resolved) (hf : ofGraph g id checked = .ok f) {call : CallId}
    (hstart : f.start = some call) : Assoc.contains f.calls call = true := by
  obtain ⟨c, used, hc, hused, hstartOf, -, -, -, -⟩ := ofGraph_eq_ok hf
  rw [hstart] at hstartOf
  refine contains_of_used hg hf hc hused ((Graph.closed_usedCalls hc hused).2 call hstartOf) ?_
  exact (hg.compositions id c hc).2.starts call (by simp [Graph.startOf_eq_ok hc hstartOf])

/-- With every call that is applied all are to which control can go from there. -/
theorem contains_successor (hg : g.Resolved) (hf : ofGraph g id checked = .ok f) {call : CallId}
    {applied : AppliedCall} (happlied : Assoc.find? f.calls call = some applied) {target : CallId}
    (htarget : target ∈ applied.successor.targets) : Assoc.contains f.calls target = true := by
  obtain ⟨c, used, hc, hused, -, hcalls, -, -, -⟩ := ofGraph_eq_ok hf
  rcases find?_applyCalls hcalls happlied with hnone | ⟨hmem, decl, hdecl, rfl, d, -, rfl⟩
  · exact absurd hnone (by simp)
  · have hedge : (decl.id, target) ∈ c.edges :=
      List.mem_flatMap.2 ⟨decl, hdecl, List.mem_map_of_mem htarget⟩
    refine contains_of_used hg hf hc hused ?_ ?_
    · exact (Graph.closed_usedCalls hc hused).1 _ hedge (List.contains_iff_mem.1 hmem)
    · exact (hg.compositions id c hc).2.successors decl hdecl target htarget

end Frame

/-! ## Calls and boundaries -/

section Declared

variable {ctx : Context} {call : AppliedCall} {d : Description}

/-- Where definitions stand under their own identities, the function of a declared call is found,
and it declares the terminals of the call. -/
theorem AppliedCall.Declared.exists_function (hg : ctx.graph.Resolved) (h : call.Declared ctx) :
    ∃ d, ctx.graph.function call.function = .ok d ∧
      call.terminals.reset = .ofDescription d call.site ctx.checked := by
  obtain ⟨key, d, hd, hfunction, hterminals⟩ := h
  exact ⟨d, by rw [hfunction, hg.functions key d hd, hd], hterminals⟩

/-- The boundary of a composition has the ports of the function that the composition represents. -/
theorem Context.Serves.isSome_get? (hg : ctx.graph.Resolved) {id : CompositionId}
    {boundary : Option Terminals} (h : ctx.Serves id boundary) {c : Composition}
    (hc : ctx.graph.composition id = .ok c) {port : Port}
    (hport : ctx.graph.Offers c (.boundary port)) :
    (boundary.bind fun ts => ts.get? port).isSome = true := by
  obtain ⟨function, d, hfunction, hd, hhas⟩ := hport
  cases boundary with
  | none =>
      obtain ⟨c', hc', hnone⟩ := h
      obtain rfl : c = c' := Except.ok.inj (hc.symm.trans hc')
      exact absurd (hnone.symm.trans hfunction) (by simp)
  | some ts =>
      obtain ⟨call, d', hdeclared, hreset, hd', hbody⟩ := h
      -- the composition is the body of the function of the call, and represents it
      obtain ⟨c', hc', hrepresents⟩ := hg.bodies _ d' id hd' hbody
      obtain rfl : c = c' := Except.ok.inj (hc.symm.trans hc')
      obtain rfl : function = call.function := Option.some.inj (hfunction.symm.trans hrepresents)
      obtain ⟨d'', hd'', hterminals⟩ := hdeclared.exists_function hg
      obtain rfl : d = d'' := Except.ok.inj (hd.symm.trans hd'')
      have hget := Terminals.get?_reset ts port
      rw [← hreset, hterminals] at hget
      rw [Option.bind_some, ← Option.isSome_map (f := Terminal.reset), ← hget,
        Terminals.isSome_get?_ofDescription]
      exact hhas

end Declared

namespace Scene

/-- What comes next in the scene is there: every slot that mappings write has a terminal, and the
start and all calls to which control can go are calls of the frame. -/
structure Furnished (s : Scene) : Prop where
  slots : ∀ slot, s.frame.wiring.Writes slot → (s.terminal? slot).isSome = true
  start : ∀ call, s.frame.start = some call → Assoc.contains s.frame.calls call = true
  successors : ∀ id call, Assoc.find? s.frame.calls id = some call →
    ∀ target ∈ call.successor.targets, Assoc.contains s.frame.calls target = true

variable {s s' : Scene} {fault : RunFault}

/-- **A scene of a resolved graph is furnished in the beginning.** -/
theorem furnished_of_ofGraph {ctx : Context} (hg : ctx.graph.Resolved)
    {id : CompositionId} {f : Frame}
    (hf : Frame.ofGraph ctx.graph id ctx.checked = .ok f) {boundary : Option Terminals}
    (hserves : ctx.Serves id boundary) : Furnished ⟨f, boundary⟩ where
  slots slot hwrites := by
    obtain ⟨c, used, hc, hused, hlive, hoffers⟩ := Frame.offers_of_writes hg hf hwrites
    cases slot with
    | call call port =>
        obtain ⟨decl, d, hdecl, hd, hport⟩ := hoffers
        have hmem : call ∈ used := List.contains_iff_mem.1 hlive
        obtain ⟨applied, d', happlied, hd', rfl⟩ := Frame.exists_applied hg hf hc hused hmem hdecl
        obtain rfl : d = d' := Except.ok.inj (hd.symm.trans hd')
        change ((Assoc.find? f.calls call).bind fun a => a.terminals.get? port).isSome = true
        rw [happlied, Option.bind_some]
        exact (Terminals.isSome_get?_ofDescription d _ _ port).trans hport
    | boundary port => exact hserves.isSome_get? hg hc hoffers
    | «variable» name => rfl
  start _ hstart := Frame.contains_start hg hf hstart
  successors _ _ happlied _ htarget := Frame.contains_successor hg hf happlied htarget

theorem contains_calls_of_reset_eq (h : s'.frame.reset = s.frame.reset) (id : CallId) :
    Assoc.contains s'.frame.calls id = Assoc.contains s.frame.calls id := by
  have hcalls := congrArg (fun f => (Assoc.find? f.calls id).isSome) h
  simpa [Frame.reset, Assoc.contains] using hcalls

/-- Where the same is declared, scenes are furnished alike. -/
theorem Furnished.of_reset_eq (h : s.Furnished) (hframe : s'.frame.reset = s.frame.reset)
    (hboundary : s'.boundary.map Terminals.reset = s.boundary.map Terminals.reset) :
    s'.Furnished where
  slots slot hwrites := by
    rw [isSome_terminal?_congr (congrArg Frame.calls hframe) hboundary]
    exact h.slots slot ((Wiring.writes_congr (congrArg Frame.wiring hframe) slot).1 hwrites)
  start call hstart := by
    rw [contains_calls_of_reset_eq hframe]
    exact h.start call ((congrArg Frame.start hframe).symm.trans hstart)
  successors id call hcall target htarget := by
    have hfind := congrArg (fun f => Assoc.find? f.calls id) hframe
    simp only [Frame.reset, Assoc.find?_mapValues, hcall, Option.map_some] at hfind
    obtain ⟨call', hcall', hreset⟩ := Option.map_eq_some_iff.1 hfind.symm
    have hsuccessor : call'.reset.successor = call.reset.successor := by rw [hreset]
    change call'.successor = call.successor at hsuccessor
    rw [contains_calls_of_reset_eq hframe]
    exact h.successors id call' hcall' target (by rwa [hsuccessor])

/-- **Data flow in a furnished scene does not fail for want of a slot.** -/
theorem Fails.not_isStructural (h : s.Fails fault) (hs : s.Furnished) : ¬ fault.IsStructural := by
  cases h with
  | missing hwrites hnone => exact absurd (hs.slots _ hwrites) (by simp [hnone])
  | mismatch _ _ _ | item _ _ | undecided _ _ => exact fun h => h

end Scene

/-- **A grounded walk in a resolved graph is furnished.** -/
theorem Walk.Grounded.furnished {ctx : Context} {w : Walk} (hg : ctx.graph.Resolved)
    (h : w.Grounded ctx) : w.scene.Furnished := by
  obtain ⟨⟨id, inputs, w₀, hbegins, hkeeps, hserves⟩, -⟩ := h
  obtain ⟨f, hf, hbind⟩ := hbegins.exists_frame
  refine (Scene.furnished_of_ofGraph hg hf hserves).of_reset_eq ?_ rfl
  rw [hkeeps.frame hbegins.closed, Frame.reset_bindVariables hbind]

/-! ## Executing one call -/

/-- Runs of bodies that begin as the graph declares do not fail for want of structure. -/
def Runner.Safe (ctx : Context) (run : Runner) : Prop :=
  ∀ {depth body ts log fault ran}, (Walk.begin body (some ts) log).Grounded ctx →
    run depth body ts log = some (.error fault, ran) → ¬ fault.IsStructural

namespace Context

variable {ctx : Context} {run : Runner} {depth : Nat} {d : Description} {a a' : Active}
  {fault : RunFault}

theorem not_isStructural_invoke (h : ctx.invoke d a = (.error fault, a')) :
    ¬ fault.IsStructural := by
  cases invokes_of_invoke h with
  | unassembled hassemble => exact (Terminals.ofValues_assemble hassemble).not_isStructural
  | unbound _ hbind =>
      rw [unbound_of_bind (congrArg Prod.fst hbind)]
      exact fun h => h
  | answered _ _ _ hpublish =>
      exact (Terminals.ofValues_publish (congrArg Prod.fst hpublish)).not_isStructural
  | exhausted _ _ _ | failed _ _ _ _ => exact fun h => h

/-- **A call does not fail for want of structure**: its function is found, and the body of the
function. -/
theorem not_isStructural_execute (hg : ctx.graph.Resolved) (hrun : run.Safe ctx)
    (ha : a.Grounded ctx)
    (h : ctx.execute run depth a = some (.error fault, a')) : ¬ fault.IsStructural := by
  obtain ⟨d, hd, -⟩ := ha.declared.exists_function hg
  generalize hr : Except.error fault = r at h
  cases performs_of_execute h with
  | unknown hnone => exact absurd (hd.symm.trans hnone) (by simp)
  | invoked _ _ hinvoke =>
      subst hr
      exact not_isStructural_invoke hinvoke
  | unprepared _ _ hprepare =>
      obtain rfl := Except.error.inj hr
      exact (Terminals.ofValues_prepare hprepare).not_isStructural
  | notSetUp hd' hid _ hset =>
      obtain rfl := Except.error.inj hr
      obtain ⟨c, hc, -⟩ := hg.bodies _ _ _ hd' hid
      exact Frame.not_isStructural_ofGraph hg hc (bodyOf_eq_error hset)
  | ran hd' hid hprepare hset hran =>
      subst hr
      have hcall : (Stage.call depth a).Grounded ctx := ha
      exact hrun (hcall.leads (.nested hd' hid hprepare hset)).1 hran

end Context

/-! ## Visits -/

namespace Walk

variable {ctx : Context} {fuel depth : Nat} {id next : CallId} {w w' : Walk} {call : AppliedCall}
  {result : Except RunFault Unit} {fault : RunFault}

/-- The walk is as the graph declares it, and the call that comes next is there. -/
structure Ready (ctx : Context) (next : Option CallId) (w : Walk) : Prop where
  grounded : w.Grounded ctx
  applied : ∀ id, next = some id → Assoc.contains w.scene.frame.calls id = true

theorem mem_targets_of_advance {s : Scene} {successor : Successor}
    (h : Flow.advance s id successor = some next) : next ∈ successor.targets := by
  cases successor with
  | stop => exact absurd h (by simp [Flow.advance])
  | next target =>
      obtain rfl := Option.some.inj h
      simp [Successor.targets]
  | loop iterate after =>
      obtain rfl := Option.some.inj h
      simp [Successor.targets]
  | branch ifTrue ifFalse =>
      simp only [Flow.advance] at h
      split at h <;> simp [Successor.targets, h]

/-- Control goes on to a successor of the call. -/
theorem mem_targets_of_afterCall (h : w.afterCall depth id call result = (.ok (some next), w')) :
    next ∈ call.successor.targets := by
  rcases afterCall_eq_ok h with ⟨-, hnext⟩ | ⟨site, iterate, -, hsuccessor⟩
  · exact mem_targets_of_advance hnext.symm
  · simp [hsuccessor, Successor.targets]

/-- **The call to which a visit leads is there.** -/
theorem ready_visit (hg : ctx.graph.Resolved) (hw : w.Grounded ctx) {next : Option CallId}
    (h : visit ctx (runner (steps ctx fuel)) depth id w = some (.ok next, w')) :
    w'.Ready ctx next := by
  have hbetween : (Stage.between depth (.ok (some id)) w).Grounded ctx := hw
  have hkeeps := (keeps_visit (faithful_runner ctx fuel) h).frame hw.closed
  refine ⟨hbetween.leads (.visited h), fun target htarget => ?_⟩
  subst htarget
  rcases visit_cases h with ⟨fault, hr, -⟩ | ⟨v, -, hexecutes⟩
  · exact absurd hr (by simp)
  · obtain ⟨hingest, hfound, -, -, -, hafter⟩ := hexecutes
    rename_i s call result a
    have hingested := (evolves_ingestAll hingest).keeps
    have hsame := hingested.frame hw.closed
    have hfurnished := (hw.furnished hg).of_reset_eq hsame hingested.boundary
    have hthere := hfurnished.successors _ _ hfound target (mem_targets_of_afterCall hafter)
    rwa [Scene.contains_calls_of_reset_eq hkeeps, ← Scene.contains_calls_of_reset_eq hsame]

/-- **A visit does not fail for want of structure**, if no run of a body inside of it does. -/
theorem not_isStructural_visit (hg : ctx.graph.Resolved)
    (hrun : Runner.Safe ctx (runner (steps ctx fuel)))
    (hw : w.Ready ctx (some id))
    (h : visit ctx (runner (steps ctx fuel)) depth id w = some (.error fault, w')) :
    ¬ fault.IsStructural := by
  have hfurnished := hw.grounded.furnished hg
  have hclosed := hw.grounded.closed
  rcases visit_cases h with ⟨fault', hr, hrefuses⟩ | ⟨v, rfl, hexecutes⟩
  · obtain rfl := Except.error.inj hr
    cases hrefuses with
    | inputs hingest => exact (Flow.failsAs_ingestAll _ _ _ _ hingest).not_isStructural hfurnished
    | missing hingest hnone =>
        have hthere := hw.applied id rfl
        rw [← Scene.contains_calls_of_reset_eq ((evolves_ingestAll hingest).keeps.frame hclosed),
          Assoc.contains, hnone] at hthere
        exact absurd hthere (by simp)
  · obtain ⟨hingest, hfound, hexecute, -, -, hafter⟩ := hexecutes
    rename_i s call result a
    have hbetween : (Stage.between depth (.ok (some v.call)) w).Grounded ctx := hw.grounded
    have hflow : w.flow (Flow.ingestAll (w.scene.frame.wiring.inputSlots v.call))
        = (.ok (), { w with scene := s }) := by simp [flow, hingest]
    rcases afterCall_eq_error hafter with ⟨rfl, -⟩ | ⟨s', hsettle⟩
    · exact Context.not_isStructural_execute hg hrun
        (hbetween.leads (.entered hflow hfound)) hexecute
    · -- the call is settled in a scene in which the same is declared
      have hreset := Context.reset_execute (faithful_runner ctx fuel) hexecute
      have hkeeps := (evolves_ingestAll hingest).keeps.trans
        ((Scene.keeps_withCall hfound hreset).trans (Scene.keeps_complete _ v.call))
      exact (Flow.failsAs_settle hsettle).not_isStructural
        (hfurnished.of_reset_eq (hkeeps.frame hclosed) hkeeps.boundary)

/-! ## Runs -/

/-- A run does not fail for want of structure, if the walk does not. -/
theorem not_isStructural_around (hg : ctx.graph.Resolved)
    (hsteps : ∀ {next w w' fault}, Ready ctx next w →
      steps ctx fuel depth next w = some (.error fault, w') → ¬ fault.IsStructural)
    (hw : w.Grounded ctx) (h : around (steps ctx fuel depth) w = some (.error fault, w')) :
    ¬ fault.IsStructural := by
  have hfurnished := hw.furnished hg
  rcases around_eq_some h with ⟨fault', s, hseed, hr, -⟩ | ⟨s, r₁, w₁, hseed, hwalk, hend⟩
  · obtain rfl := Except.error.inj hr
    exact (Flow.failsAs_seed _ _ _ hseed).not_isStructural hfurnished
  · have hkeeps := (Flow.evolves_seed w.scene).keeps
    rw [hseed] at hkeeps
    have hseeded : w.flow Flow.seed = (.ok (), { w with scene := s }) := by simp [flow, hseed]
    have hready : Ready ctx s.frame.start { w with scene := s } :=
      ⟨hw.flow (Flow.evolves_seed w.scene).keeps hseeded,
        (hfurnished.of_reset_eq (hkeeps.frame hw.closed) hkeeps.boundary).start⟩
    rcases hend with ⟨rfl, -, -⟩ | ⟨s₁, -, -, hfinish, -⟩
    · exact hsteps hready hwalk
    · have hwalked := hkeeps.trans (keeps_steps hwalk)
      exact (Flow.failsAs_finish _ _ _ hfinish).not_isStructural
        (hfurnished.of_reset_eq (hwalked.frame hw.closed) hwalked.boundary)

/-- Bodies are run safely if the walk is safe. -/
theorem safe_of_steps (hg : ctx.graph.Resolved)
    (hsteps : ∀ {depth next w w' fault}, Ready ctx next w →
      steps ctx fuel depth next w = some (.error fault, w') → ¬ fault.IsStructural) :
    Runner.Safe ctx (runner (steps ctx fuel)) := by
  intro depth body ts log fault ran hw h
  obtain ⟨w', hrun, -⟩ := runner_eq_some h
  exact not_isStructural_around hg hsteps hw hrun

/-- **Walks do not fail for want of structure.** -/
theorem not_isStructural_steps (hg : ctx.graph.Resolved) {next : Option CallId}
    (hw : w.Ready ctx next)
    (h : steps ctx fuel depth next w = some (.error fault, w')) : ¬ fault.IsStructural := by
  refine induction_on_steps (P := fun _ next w r _ => w.Ready ctx next → ∀ fault, r = .error fault →
    ¬ fault.IsStructural) ?_ ?_ ?_ h hw fault rfl
  · intro depth w _ fault hfault
    exact absurd hfault (by simp)
  · intro fuel depth id w fault w' hbodies hvisit hw fault' hfault
    obtain rfl := Except.error.inj hfault
    exact not_isStructural_visit hg (safe_of_steps hg fun hw h => hbodies h hw _ rfl) hw hvisit
  · intro fuel depth id w next w₁ r w' hbodies hvisit hlater hw
    exact hlater (ready_visit hg hw.grounded hvisit)

/-- **Runs of bodies do not fail for want of structure.** -/
theorem safe_runner (hg : ctx.graph.Resolved) (fuel : Nat) :
    Runner.Safe ctx (runner (steps ctx fuel)) :=
  safe_of_steps hg (not_isStructural_steps hg)

end Walk

/-! ## Stages -/

namespace Stage

/-- What the stage needs is there: the scene of a run is furnished and the call that comes next is
one of its frame, and the function of a call is in the graph, with its body. -/
def Furnished (ctx : Context) : Stage → Prop
  | .start _ w | .ended _ _ w => w.scene.Furnished
  | .between _ r w => w.scene.Furnished ∧
      ∀ id, r = .ok (some id) → Assoc.contains w.scene.frame.calls id = true
  | .call _ a | .left _ _ a => ∃ d, ctx.graph.function a.call.function = .ok d ∧
      ∀ id, d.body = some id → ∃ c, ctx.graph.composition id = .ok c

theorem exists_body_of_grounded {ctx : Context} (hg : ctx.graph.Resolved) {a : Active}
    (h : a.Grounded ctx) : (Stage.call 0 a).Furnished ctx := by
  obtain ⟨d, hd, -⟩ := h.declared.exists_function hg
  refine ⟨d, hd, fun id hid => ?_⟩
  obtain ⟨c, hc, -⟩ := hg.bodies _ d id hd hid
  exact ⟨c, hc⟩

/-- Where all is as the graph declares it, the next stage has what it needs. -/
theorem Grounded.furnished_of_leads {ctx : Context} (hg : ctx.graph.Resolved) {stage stage' : Stage}
    (h : stage.Grounded ctx) (hleads : Leads ctx stage stage') : stage'.Furnished ctx := by
  have hnext := h.leads hleads
  cases hleads with
  | @seeded _ w w' r hflow =>
      have hfurnished := Walk.Grounded.furnished hg hnext
      refine ⟨hfurnished, fun id hid => hfurnished.start id ?_⟩
      obtain ⟨_, -, hstart⟩ := map_eq_ok hid
      exact hstart.symm
  | @visited _ _ _ _ w' r hvisit =>
      refine ⟨Walk.Grounded.furnished hg hnext, fun id hid => ?_⟩
      subst hid
      exact (Walk.ready_visit hg h hvisit).applied id rfl
  | finished _ _ => exact Walk.Grounded.furnished hg hnext
  | entered _ _ => exact exists_body_of_grounded hg hnext
  | executed _ => exact exists_body_of_grounded hg hnext
  | nested _ _ _ _ => exact Walk.Grounded.furnished hg hnext.1

/-- **Every stage that is passed has what it needs.** -/
theorem furnished_of_passes {e : Engine} (hg : e.context.graph.Resolved) {target : RunTarget}
    {inputs : List (String × Value)} {stage : Stage} (h : e.Passes target inputs stage) :
    stage.Furnished e.context := by
  obtain ⟨first, hopens, hsteps⟩ := h
  cases hsteps with
  | refl =>
      have hgrounded := grounded_of_opens hopens
      cases hopens with
      | function _ _ _ => exact exists_body_of_grounded hg hgrounded
      | standalone _ _ _ _ _ => exact hgrounded.1.furnished hg
  | tail hbefore hleads =>
      exact (grounded_of_passes ⟨first, hopens, hbefore⟩).furnished_of_leads hg hleads

end Stage

/-! ## Executions -/

/-- Is the target in the graph? -/
def RunTarget.Exists (g : Graph) : RunTarget → Prop
  | .function id => ∃ d, g.function id = .ok d
  | .composition id => ∃ c, g.composition id = .ok c

namespace Engine

variable {e e' : Engine} {fuel : Nat} {inputs outputs : List (String × Value)} {fault : RunFault}

/-- The function to which a target of the graph leads is in the graph. -/
theorem exists_description_of_target (hg : e.context.graph.Resolved) {target : RunTarget}
    (htarget : target.Exists e.context.graph) {id : FunctionId}
    (hid : e.functionOf? target = some id) :
    ∃ d, e.context.graph.function id = .ok d := by
  cases target with
  | function id' =>
      obtain rfl := Option.some.inj hid
      exact htarget
  | composition id' =>
      obtain ⟨c, hc⟩ := htarget
      simp only [functionOf?, hc] at hid
      exact (hg.compositions id' c hc).2.represents id hid

/-- A target that is in the graph is not refused for want of structure: it leads to a function
there, or is a composition by itself. -/
theorem Refuses.not_isStructural (hg : e.context.graph.Resolved) {target : RunTarget}
    (htarget : target.Exists e.context.graph) (h : e.Refuses target inputs fault) :
    ¬ fault.IsStructural := by
  cases h with
  | noComposition heq hmissing =>
      subst heq
      obtain ⟨c, hc⟩ := htarget
      exact absurd (hc.symm.trans hmissing) (by simp)
  | noFunction hfunction hmissing =>
      obtain ⟨d, hd⟩ := exists_description_of_target hg htarget hfunction
      exact absurd (hd.symm.trans hmissing) (by simp)
  | inputs _ _ hbind =>
      rcases bindInputs_eq_error hbind with ⟨name, rfl⟩ | hvalues
      · exact fun h => h
      · exact hvalues.not_isStructural
  | frame _ hc _ hf => exact Frame.not_isStructural_ofGraph hg hc hf
  | boundVariables _ _ _ _ hbind =>
      rcases bindVariables_eq_error hbind with ⟨name, rfl⟩ | hvalues
      · exact fun h => h
      · exact hvalues.not_isStructural

theorem not_isStructural_runTarget (hg : e.context.graph.Resolved) {target : RunTarget}
    (htarget : target.Exists e.context.graph) (hlog : e.log = Log.start e.tracing)
    (h : e.runTarget fuel target inputs = some (.error fault, e')) : ¬ fault.IsStructural := by
  generalize hr : Except.error fault = r at h
  cases ends_of_runTarget hlog h with
  | refused hrefuses =>
      obtain rfl := Except.error.inj hr
      exact hrefuses.not_isStructural hg htarget
  | called hopens hexecute =>
      obtain rfl := map_eq_error hr.symm
      exact Context.not_isStructural_execute hg (Walk.safe_runner hg fuel)
        (Stage.grounded_of_opens hopens)
        hexecute
  | ran hopens hrun =>
      obtain rfl := map_eq_error hr.symm
      exact Walk.not_isStructural_around hg (Walk.not_isStructural_steps hg)
        (Stage.grounded_of_opens hopens).1 hrun

/-- **An execution of a target of a resolved graph does not fail for want of structure.** -/
theorem not_isStructural_executeWithin (hg : e.context.graph.Resolved) {target : RunTarget}
    (htarget : target.Exists e.context.graph)
    (h : e.executeWithin fuel target inputs = some (.error fault, e')) : ¬ fault.IsStructural := by
  unfold executeWithin at h
  split at h
  · exact absurd h (by simp)
  · rename_i result e'' hrun
    have hescaped := congrArg Prod.fst (Option.some.inj h)
    unfold escaped at hescaped
    split at hescaped
    · rw [← Except.error.inj hescaped]
      exact fun h => h
    · obtain rfl : result = .error fault := hescaped
      have hstarted : ({ e with log := Log.start e.tracing } : Engine).context.graph.Resolved := hg
      exact not_isStructural_runTarget hstarted htarget rfl hrun

/-- **Graphs that were built do not fail for want of structure.**  No execution of a target of the
graph ends because a definition or a slot does not exist: at every stage and every depth, the calls
to which control goes are applied, functions and bodies of calls are in the graph, and every slot
that mappings write has a terminal. -/
theorem structured_of_buildable (hgraph : e.context.graph.Buildable) {target : RunTarget}
    (htarget : target.Exists e.context.graph) (inputs : List (String × Value)) :
    (∀ fuel fault e', e.executeWithin fuel target inputs = some (.error fault, e') →
      ¬ fault.IsStructural) ∧
    ∀ stage, e.Passes target inputs stage → stage.Furnished e.context := by
  have hg := hgraph.wellFormed.resolved
  exact ⟨fun fuel fault e' h => not_isStructural_executeWithin hg htarget h,
    fun stage => Stage.furnished_of_passes hg⟩

end Engine

/-! ### A call with a body -/

namespace Sample

/-- A composition that calls a function whose body passes its argument on to an implementation.  Two
of the operations fail: there is no function 7, and no call 5. -/
def assembly : List Graph.Operation := [
  .addFunction "outer" [⟨"a", .any, .positional 0, none⟩],
  .addNative "inner" [⟨"a", .any, .positional 0, none⟩] "inner",
  .addComposition "main" none,
  .addComposition "body" (some ⟨0⟩),
  .addCall ⟨0⟩ ⟨7⟩,
  .addCall ⟨0⟩ ⟨0⟩,
  .setSuccessor ⟨0⟩ ⟨0⟩ (.next ⟨5⟩),
  .sequence ⟨0⟩ [⟨0⟩],
  .addMapping ⟨0⟩ ⟨.constant (.bool true), none, .call ⟨0⟩ (.param 0), none, none⟩,
  .addCall ⟨1⟩ ⟨1⟩,
  .sequence ⟨1⟩ [⟨1⟩],
  .addMapping ⟨1⟩ ⟨.boundary (.param 0), none, .call ⟨1⟩ (.param 0), none, none⟩,
  .addMapping ⟨1⟩ ⟨.call ⟨1⟩ .output, none, .boundary .output, none, none⟩]

/-- An engine for the composition whose host knows no implementation. -/
def assembled : Engine :=
  .new (assembly.foldl Graph.Operation.apply (.empty "assembled"))
    { resolve _ := none, resolveMember _ _ := none } {}

end Sample

/-- The composition fails inside of the body, for want of an implementation. -/
theorem Engine.structured_of_buildable_sample :
    Sample.assembled.context.graph.Buildable ∧
    (RunTarget.composition ⟨0⟩).Exists Sample.assembled.context.graph ∧
    (∃ fault e', Sample.assembled.executeWithin 2 (.composition ⟨0⟩) [] = some (.error fault, e') ∧
      e'.log.visits = [⟨1⟩, ⟨0⟩] ∧ ¬ fault.IsStructural) ∧
    ∀ stage, Sample.assembled.Passes (.composition ⟨0⟩) [] stage →
      stage.Furnished Sample.assembled.context := by
  have hgraph : Sample.assembled.context.graph.Buildable :=
    ⟨by decide +kernel, "assembled", Sample.assembly, rfl⟩
  have htarget : (RunTarget.composition ⟨0⟩).Exists Sample.assembled.context.graph := by
    have hc : (Sample.assembled.context.graph.composition ⟨0⟩).toOption.isSome = true := by
      decide +kernel
    cases hcomposition : Sample.assembled.context.graph.composition ⟨0⟩ with
    | error fault => exact absurd hc (by simp [hcomposition, Except.toOption])
    | ok c => exact ⟨c, hcomposition⟩
  obtain ⟨hresults, hstages⟩ := structured_of_buildable hgraph htarget []
  have hcheck : (Sample.assembled.executeWithin 2 (.composition ⟨0⟩) []).any (fun ran =>
      ran.1.toOption.isNone && ran.2.log.visits == [⟨1⟩, ⟨0⟩]) = true := by decide +kernel
  obtain ⟨⟨r, e'⟩, hran, hr⟩ := (Option.any_eq_true ..).1 hcheck
  simp only [Bool.and_eq_true, beq_iff_eq] at hr
  refine ⟨hgraph, htarget, ?_, hstages⟩
  cases r with
  | ok outputs => exact absurd hr.1 (by simp [Except.toOption])
  | error fault => exact ⟨fault, e', hran, hr.2, hresults 2 fault e' hran⟩

/-- A graph that was put together from parts can lack a function. -/
example : (Engine.executeWithin
    (.new (.ofParts "dangling" [] [{ Composition.empty ⟨0⟩ "main" none with
        starts := [⟨0⟩], calls := [⟨⟨0⟩, ⟨7⟩, .stop, none⟩] }]) ⟨fun _ => none, fun _ _ => none⟩ {})
    2 (.composition ⟨0⟩) []).any (fun ran => match ran.1 with
      | .error (.graph (.functionNotFound id)) => id == ⟨7⟩
      | _ => false) = true := by decide +kernel

end CallFlow
