import CallFlow.Proofs.Scene

/-!
# Frames that are set up from a graph

A frame that comes from a graph has unwritten terminals and no authority
(`Frame.reset_of_ofGraph`), its wiring is what `Wiring.build` makes of its mappings, and it has
every variable that these write (`Frame.closed_of_ofGraph`).  The terminals of a call are those
that the description of its function declares (`Frame.exists_description`).
-/

namespace CallFlow

/-! ## Calls without contents -/

namespace Terminals

theorem map_reset_ofParams (site : Site) (checked : Bool) (position : Nat) (ps : List Param) :
    (ofParams site checked position ps).map Terminal.reset = ofParams site checked position ps := by
  induction ps generalizing position with
  | nil => rfl
  | cons p rest ih =>
      rw [ofParams, List.map_cons, ih]
      rfl

@[simp] theorem reset_ofDescription (d : Description) (site : Site) (checked : Bool) :
    (ofDescription d site checked).reset = ofDescription d site checked := by
  have hreceiver : (ofDescription d site checked).receiver.map Terminal.reset
      = (ofDescription d site checked).receiver := by
    cases hr : d.receiver <;> simp [ofDescription, hr, Terminal.ofPort, Terminal.reset, Cell.clear]
  have hself : (ofDescription d site checked).selfOutput.map Terminal.reset
      = (ofDescription d site checked).selfOutput := by
    cases ho : d.selfOutput <;> simp [ofDescription, ho, Terminal.ofPort,
      Terminal.reset, Cell.clear]
  rw [reset_eq, hreceiver, hself]
  simp [ofDescription, map_reset_ofParams, Terminal.ofPort, Terminal.reset, Cell.clear]

theorem length_ofParams (site : Site) (checked : Bool) (position : Nat) (ps : List Param) :
    (ofParams site checked position ps).length = ps.length := by
  induction ps generalizing position with
  | nil => rfl
  | cons p rest ih => rw [ofParams, List.length_cons, List.length_cons, ih]

/-- A call has the ports that its description declares, and no others. -/
theorem isSome_get?_ofDescription (d : Description) (site : Site) (checked : Bool) (port : Port) :
    ((ofDescription d site checked).get? port).isSome = Graph.hasPort d port := by
  cases port with
  | param i =>
      have hlength : (ofDescription d site checked).params.length = d.params.length :=
        length_ofParams site checked 0 d.params
      rw [get?, Graph.hasPort, ← hlength, Bool.eq_iff_iff, isSome_getElem?, decide_eq_true_iff]
  | receiver => simp [get?, ofDescription, Graph.hasPort]
  | output => rfl
  | selfOutput => simp [get?, ofDescription, Graph.hasPort]

end Terminals

@[simp] theorem AppliedCall.reset_ofDescription (d : Description) (site : Site)
    (successor : Successor) (label : Option String) (checked : Bool) :
    (AppliedCall.ofDescription d site successor label checked).reset
      = .ofDescription d site successor label checked := by
  simp [AppliedCall.reset, AppliedCall.ofDescription]

/-- The declaration from which the call with an identity is applied: the last one, if there are
several. -/
def Composition.applied? (c : Composition) (id : CallId) : Option CallDecl :=
  c.calls.reverse.find? fun d => d.id == id

theorem Composition.mem_of_applied? {c : Composition} {id : CallId} {decl : CallDecl}
    (h : c.applied? id = some decl) : decl ∈ c.calls ∧ decl.id = id :=
  ⟨List.mem_reverse.1 (List.mem_of_find?_eq_some h), by simpa using List.find?_some h⟩

namespace Frame

/-- A call that was applied is a declared call of a function of the graph, and unwritten. -/
theorem find?_applyCalls {g : Graph} {checked : Bool} {used : List CallId}
    {calls calls' : Assoc CallId AppliedCall} {decls : List CallDecl}
    (h : applyCalls g checked used calls decls = .ok calls') {id : CallId} {call : AppliedCall}
    (hfind : Assoc.find? calls' id = some call) :
    Assoc.find? calls id = some call ∨
      used.contains id = true ∧
      ∃ decl ∈ decls, decl.id = id ∧ ∃ d, g.function decl.function = .ok d ∧
        call = .ofDescription d (.call id) decl.successor decl.label checked := by
  induction decls generalizing calls with
  | nil =>
      cases h
      exact .inl hfind
  | cons decl rest ih =>
      rw [applyCalls] at h
      split at h
      · rename_i hused
        split at h
        · exact absurd h (by simp)
        · rename_i d hd
          rcases ih h with hold | ⟨hin, decl', hmem, hrest⟩
          · rw [Assoc.find?_insert] at hold
            split at hold
            · rename_i hid
              subst hid
              exact .inr ⟨hused, decl, by simp, rfl, d, hd, (Option.some.inj hold).symm⟩
            · exact .inl hold
          · exact .inr ⟨hin, decl', List.mem_cons_of_mem _ hmem, hrest⟩
      · rcases ih h with hold | ⟨hin, decl', hmem, hrest⟩
        · exact .inl hold
        · exact .inr ⟨hin, decl', List.mem_cons_of_mem _ hmem, hrest⟩

/-- Of several declarations with one identity the last is the one that is applied. -/
theorem find?_reverse_of_applyCalls {g : Graph} {checked : Bool} {used : List CallId}
    {calls calls' : Assoc CallId AppliedCall} {decls : List CallDecl}
    (h : applyCalls g checked used calls decls = .ok calls') {id : CallId} {call : AppliedCall}
    (hused : used.contains id = true) (hfind : Assoc.find? calls' id = some call) :
    (decls.reverse.find? (fun d => d.id == id) = none ∧ Assoc.find? calls id = some call) ∨
      ∃ decl, decls.reverse.find? (fun d => d.id == id) = some decl ∧
        ∃ d, g.function decl.function = .ok d ∧
          call = .ofDescription d (.call id) decl.successor decl.label checked := by
  induction decls generalizing calls with
  | nil =>
      cases h
      exact .inl ⟨rfl, hfind⟩
  | cons decl rest ih =>
      rw [applyCalls] at h
      simp only [List.reverse_cons, List.find?_append]
      by_cases hid : decl.id = id
      · subst hid
        rw [if_pos hused] at h
        split at h
        · exact absurd h (by simp)
        · rename_i d hd
          rcases ih h with ⟨hnone, hold⟩ | ⟨decl', hlast, hrest⟩
          · rw [Assoc.find?_insert_self] at hold
            exact .inr ⟨decl, by simp [hnone], d, hd, (Option.some.inj hold).symm⟩
          · exact .inr ⟨decl', by simp [hlast], hrest⟩
      · have hlater : (rest.reverse.find? (fun d => d.id == id)).or
            ([decl].find? fun d => d.id == id) = rest.reverse.find? fun d => d.id == id := by
          simp [hid]
        rw [hlater]
        split at h
        · split at h
          · exact absurd h (by simp)
          · rcases ih h with ⟨hnone, hold⟩ | hlast
            · rw [Assoc.find?_insert, if_neg hid] at hold
              exact .inl ⟨hnone, hold⟩
            · exact .inr hlast
        · exact ih h

/-- Calls cannot be applied only if a function of one of them is missing. -/
theorem applyCalls_eq_error {g : Graph} {checked : Bool} {used : List CallId}
    {calls : Assoc CallId AppliedCall} {decls : List CallDecl} {fault : RunFault}
    (h : applyCalls g checked used calls decls = .error fault) :
    ∃ decl ∈ decls, used.contains decl.id = true ∧
      ∃ e, g.function decl.function = .error e ∧ fault = .ofGraph e := by
  induction decls generalizing calls with
  | nil => exact absurd h (by simp [applyCalls])
  | cons decl rest ih =>
      have hlater : ∀ {calls}, applyCalls g checked used calls rest = .error fault →
          ∃ decl' ∈ decl :: rest, used.contains decl'.id = true ∧
            ∃ e, g.function decl'.function = .error e ∧ fault = .ofGraph e := fun h => by
        obtain ⟨decl', hmem, hrest⟩ := ih h
        exact ⟨decl', List.mem_cons_of_mem _ hmem, hrest⟩
      rw [applyCalls] at h
      split at h
      · rename_i hused
        split at h
        · rename_i e he
          exact ⟨decl, by simp, hused, e, he, (Except.error.inj h).symm⟩
        · exact hlater h
      · exact hlater h

theorem mapValues_reset_applyCalls {g : Graph} {checked : Bool} {used : List CallId}
    {calls calls' : Assoc CallId AppliedCall} {decls : List CallDecl}
    (h : applyCalls g checked used calls decls = .ok calls')
    (hcalls : Assoc.mapValues AppliedCall.reset calls = calls) :
    Assoc.mapValues AppliedCall.reset calls' = calls' := by
  induction decls generalizing calls with
  | nil =>
      cases h
      exact hcalls
  | cons decl rest ih =>
      rw [applyCalls] at h
      split at h
      · split at h
        · exact absurd h (by simp)
        · refine ih h ?_
          rw [Assoc.mapValues_insert, hcalls, AppliedCall.reset_ofDescription]
      · exact ih h hcalls

/-! ## Variables -/

theorem contains_map_pair {α : Type} (f : String → α) (names : List String) (name : String) :
    Assoc.contains (names.map fun n => (n, f n)) name = names.contains name := by
  induction names with
  | nil => rfl
  | cons n rest ih =>
      by_cases h : n = name
      · simp [Assoc.contains, Assoc.find?, h]
      · simpa [Assoc.contains, Assoc.find?, h, Ne.symm h] using ih

theorem contains_variablesOf {ms : List Mapping} {m : Mapping} (hm : m ∈ ms) {name : String}
    (htarget : Slot.of? m.target = some (.variable name)) :
    Assoc.contains (variablesOf ms) name = true := by
  rw [variablesOf, contains_map_pair, List.contains_iff_mem, List.mem_eraseDups]
  refine List.mem_flatMap.2 ⟨m, hm, List.mem_filterMap.2 ⟨m.target, by simp, ?_⟩⟩
  cases hm : m.target with
  | constant _ | call _ _ | boundary _ => simp [hm, Slot.of?] at htarget
  | «variable» n => simpa [hm, Slot.of?, variableOf?] using htarget

theorem mapValues_reset_variablesOf (ms : List Mapping) :
    Assoc.mapValues Terminal.reset (variablesOf ms) = variablesOf ms := by
  have haux (names : List String) :
      Assoc.mapValues Terminal.reset (names.map fun n => (n, Terminal.ofVariable n))
        = names.map fun n => (n, Terminal.ofVariable n) := by
    induction names with
    | nil => rfl
    | cons n rest ih => simp [Assoc.mapValues, ih]
  exact haux _

/-! ## What a frame has -/

/-- The mappings of a composition that an execution of it uses. -/
def liveMappings (used : List CallId) (c : Composition) : List Mapping :=
  c.mappings.filter fun m => isLive used m.source && isLive used m.target

/-- The parts of a frame that was set up. -/
theorem ofGraph_eq_ok {g : Graph} {id : CompositionId} {checked : Bool} {f : Frame}
    (h : ofGraph g id checked = .ok f) :
    ∃ c used, g.composition id = .ok c ∧ g.usedCalls id = .ok used ∧
      g.startOf id = .ok f.start ∧ applyCalls g checked used [] c.calls = .ok f.calls ∧
      Wiring.build c.id (liveMappings used c) = .ok f.wiring ∧ f.vars = variablesOf c.mappings ∧
      f.id = id := by
  unfold ofGraph at h
  obtain ⟨c, hc, h⟩ := bind_eq_ok h
  obtain ⟨start, hstart, h⟩ := bind_eq_ok h
  obtain ⟨used, hused, h⟩ := bind_eq_ok h
  obtain ⟨calls, hcalls, h⟩ := bind_eq_ok h
  obtain ⟨w, hw, h⟩ := bind_eq_ok h
  obtain rfl := Except.ok.inj h
  exact ⟨c, used, mapError_eq_ok hc, mapError_eq_ok hused, mapError_eq_ok hstart, hcalls,
    mapError_eq_ok hw, rfl, rfl⟩

/-- Why a frame cannot be set up: the composition, its start, the calls that it uses or the function
of one of these cannot be found, or the mappings get in each other's way. -/
theorem ofGraph_eq_error {g : Graph} {id : CompositionId} {checked : Bool} {fault : RunFault}
    (h : ofGraph g id checked = .error fault) :
    (∃ e, fault = .ofGraph e ∧ (g.composition id = .error e ∨ g.startOf id = .error e ∨
      g.usedCalls id = .error e ∨ ∃ c used decl, g.composition id = .ok c ∧
        g.usedCalls id = .ok used ∧ decl ∈ c.calls ∧ used.contains decl.id = true ∧
        g.function decl.function = .error e)) ∨
    ∃ c used reason, g.composition id = .ok c ∧ g.usedCalls id = .ok used ∧
      Wiring.build c.id (liveMappings used c) = .error reason ∧ fault = .ambiguous c.id reason := by
  unfold ofGraph at h
  rcases bind_eq_error h with hc | ⟨c, hc, h⟩
  · obtain ⟨e, he, rfl⟩ := mapError_eq_error hc
    exact .inl ⟨e, rfl, .inl he⟩
  rcases bind_eq_error h with hstart | ⟨start, -, h⟩
  · obtain ⟨e, he, rfl⟩ := mapError_eq_error hstart
    exact .inl ⟨e, rfl, .inr (.inl he)⟩
  rcases bind_eq_error h with hused | ⟨used, hused, h⟩
  · obtain ⟨e, he, rfl⟩ := mapError_eq_error hused
    exact .inl ⟨e, rfl, .inr (.inr (.inl he))⟩
  rcases bind_eq_error h with hcalls | ⟨calls, -, h⟩
  · obtain ⟨decl, hdecl, hin, e, he, rfl⟩ := applyCalls_eq_error hcalls
    exact .inl ⟨e, rfl, .inr (.inr (.inr
      ⟨c, used, decl, mapError_eq_ok hc, mapError_eq_ok hused, hdecl, hin, he⟩))⟩
  rcases bind_eq_error h with hw | ⟨w, -, h⟩
  · obtain ⟨reason, hreason, rfl⟩ := mapError_eq_error hw
    exact .inr ⟨c, used, reason, mapError_eq_ok hc, mapError_eq_ok hused, hreason, rfl⟩
  · cases h

/-- A frame that was set up is without contents. -/
theorem reset_of_ofGraph {g : Graph} {id : CompositionId} {checked : Bool} {f : Frame}
    (h : ofGraph g id checked = .ok f) : f.reset = f := by
  obtain ⟨c, used, -, -, -, hcalls, hw, hvars, -⟩ := ofGraph_eq_ok h
  have hc : Assoc.mapValues AppliedCall.reset f.calls = f.calls :=
    mapValues_reset_applyCalls hcalls rfl
  have hv : Assoc.mapValues Terminal.reset f.vars = f.vars := by
    rw [hvars, mapValues_reset_variablesOf]
  rw [reset, hc, hv, Wiring.reset_of_build hw]

/-- A frame that was set up is without authority. -/
theorem reset_wiring_of_ofGraph {g : Graph} {id : CompositionId} {checked : Bool} {f : Frame}
    (h : ofGraph g id checked = .ok f) : f.wiring.reset = f.wiring := by
  obtain ⟨c, used, -, -, -, -, hw, -, -⟩ := ofGraph_eq_ok h
  exact Wiring.reset_of_build hw

theorem built_of_ofGraph {g : Graph} {id : CompositionId} {checked : Bool} {f : Frame}
    (h : ofGraph g id checked = .ok f) : f.wiring.Built := by
  obtain ⟨c, used, -, -, -, -, hw, -, -⟩ := ofGraph_eq_ok h
  exact Wiring.built_of_build hw

theorem mappings_of_ofGraph {g : Graph} {id : CompositionId} {checked : Bool} {f : Frame}
    (h : ofGraph g id checked = .ok f) :
    ∃ c used, g.composition id = .ok c ∧ g.usedCalls id = .ok used ∧
      f.wiring.mappings = liveMappings used c := by
  obtain ⟨c, used, hc, hused, -, -, hw, -, -⟩ := ofGraph_eq_ok h
  exact ⟨c, used, hc, hused, Wiring.mappings_of_build hw⟩

/-- **A frame that was set up has the variables that its mappings write.** -/
theorem closed_of_ofGraph {g : Graph} {id : CompositionId} {checked : Bool} {f : Frame}
    (h : ofGraph g id checked = .ok f) : f.Closed := by
  obtain ⟨c, used, -, -, -, -, hw, hvars, -⟩ := ofGraph_eq_ok h
  intro name hname
  obtain ⟨m, hm, htarget⟩ := (Wiring.built_of_build hw).exists_mapping_of_writes hname
  rw [Wiring.mappings_of_build hw] at hm
  rw [hvars]
  exact contains_variablesOf (List.mem_filter.1 hm).1 htarget

/-- The call that is applied under an identity is the one that the last declaration of it gives. -/
theorem applied_of_ofGraph {g : Graph} {id : CompositionId} {checked : Bool} {f : Frame}
    (h : ofGraph g id checked = .ok f) {call : CallId} {applied : AppliedCall}
    (hcall : Assoc.find? f.calls call = some applied) :
    ∃ c decl d, g.composition id = .ok c ∧ c.applied? call = some decl ∧
      g.function decl.function = .ok d ∧
      applied = .ofDescription d (.call call) decl.successor decl.label checked := by
  obtain ⟨c, used, hc, -, -, hcalls, -, -, -⟩ := ofGraph_eq_ok h
  rcases find?_applyCalls hcalls hcall with hnone | ⟨hused, -⟩
  · exact absurd hnone (by simp)
  rcases find?_reverse_of_applyCalls hcalls hused hcall with ⟨-, hnone⟩ |
    ⟨decl, hdecl, d, hd, happlied⟩
  · exact absurd hnone (by simp)
  · exact ⟨c, decl, d, hc, hdecl, hd, happlied⟩

/-- A call that was applied is used, and has the terminals that a declaration of it gives. -/
theorem exists_description {g : Graph} {id : CompositionId} {checked : Bool} {f : Frame}
    (h : ofGraph g id checked = .ok f) {call : CallId} {applied : AppliedCall}
    (hcall : Assoc.find? f.calls call = some applied) :
    ∃ c used decl d, g.composition id = .ok c ∧ f.wiring.mappings = liveMappings used c ∧
      used.contains call = true ∧ decl ∈ c.calls ∧ decl.id = call ∧
      g.function decl.function = .ok d ∧
      applied = .ofDescription d (.call call) decl.successor decl.label checked := by
  obtain ⟨c, used, hc, -, -, hcalls, hw, -, -⟩ := ofGraph_eq_ok h
  rcases find?_applyCalls hcalls hcall with hnone | ⟨hused, decl, hdecl, hid, d, hd, happlied⟩
  · exact absurd hnone (by simp)
  · exact ⟨c, used, decl, d, hc, Wiring.mappings_of_build hw, hused, hdecl, hid, hd, happlied⟩

end Frame

end CallFlow
