import CallFlow.Wiring

/-!
# What is looked up in a wiring

A wiring has tables for what its mappings read: which of them accumulate from a call, which slots
of a call groups write, and which variables a call feeds or read a variable.  They are filled in
one pass over the mappings and one over the groups.  Here it is said what stands in them, by the
mappings and the groups alone (`Wiring.accumulatingFrom_eq`, `Wiring.inputSlots_eq`,
`Wiring.fedBy_eq`, `Wiring.readers_eq`).

A variable is entered under each source of its groups at most once, and a slot has one target.  So
the tables hold no name twice, which is why the two last ones need not be sorted out again.
-/

namespace CallFlow

namespace Mapping

variable {m : Mapping}

theorem sourceCall?_eq_some_iff {call : CallId} :
    m.sourceCall? = some call ↔ ∃ port, m.source = .call call port := by
  unfold sourceCall?
  cases m.source <;> simp

theorem readsVariable_iff {name : String} :
    m.readsVariable name = true ↔ m.source = .variable name := by
  unfold readsVariable
  cases m.source <;> simp

theorem isAccumulating_iff : m.isAccumulating = true ↔
    (∃ call port, m.source = .call call port) ∧ m.targetStrategy = some .append := by
  simp [isAccumulating, Option.isSome_iff_exists, sourceCall?_eq_some_iff]

/-- What one mapping adds to those that accumulate from a call. -/
theorem getAll_accumulate (table : Assoc CallId (List Mapping)) (m : Mapping) (call : CallId) :
    Assoc.getAll (accumulate table m) call =
      Assoc.getAll table call ++
        [m].filter fun m => m.isAccumulating && m.sourceCall? == some call := by
  unfold accumulate
  split
  · rename_i id port hsource hstrategy
    have hacc : m.isAccumulating = true := isAccumulating_iff.2 ⟨⟨id, port, hsource⟩, hstrategy⟩
    have hcall : m.sourceCall? = some id := sourceCall?_eq_some_iff.2 ⟨port, hsource⟩
    by_cases hid : id = call
    · simp [Assoc.getAll_push, hacc, hcall, hid]
    · simp [Assoc.getAll_push, hcall, hid]
  · rename_i hother
    have hacc : m.isAccumulating = false := by
      rw [← Bool.not_eq_true, isAccumulating_iff]
      rintro ⟨⟨id, port, hsource⟩, hstrategy⟩
      exact hother id port hsource hstrategy
    simp [hacc]

theorem getAll_accumulated (ms : List Mapping) (call : CallId) :
    Assoc.getAll (accumulated ms) call =
      ms.filter fun m => m.isAccumulating && m.sourceCall? == some call := by
  have hfold : ∀ table : Assoc CallId (List Mapping),
    Assoc.getAll (ms.foldl accumulate table) call =
      Assoc.getAll table call ++
        ms.filter fun m => m.isAccumulating && m.sourceCall? == some call := by
    induction ms with
    | nil => simp
    | cons m rest ih =>
        intro table
        rw [List.foldl_cons, ih, getAll_accumulate, List.append_assoc, ← List.filter_append]
        rfl
  exact hfold []

end Mapping

/-- Is the slot one of the call? -/
def Slot.isOf (call : CallId) : Slot → Bool
  | .call id _ => id == call
  | .boundary _ | .variable _ => false

/-- The variable of a slot with a group mapping that passes the test. -/
def Slot.variableWith? (test : Mapping → Bool) : Slot × Target → Option String
  | (.variable name, target) => if target.mappings.any test then some name else none
  | (.call _ _, _) | (.boundary _, _) => none

namespace Indices

/-! ## Slots of calls -/

theorem inputs_addSources (name : String) (ms : List Mapping) (t : Indices) :
    (ms.foldl (addSource name) t).inputs = t.inputs := by
  induction ms generalizing t with
  | nil => rfl
  | cons m rest ih =>
      rw [List.foldl_cons, ih, addSource]
      split <;> rfl

theorem getAll_inputs (targets : Assoc Slot Target) (call : CallId) :
    Assoc.getAll (ofTargets targets).inputs call =
      (Assoc.keys targets).filter (Slot.isOf call) := by
  have hfold : ∀ t : Indices, Assoc.getAll (targets.foldl addTarget t).inputs call =
      Assoc.getAll t.inputs call ++ (Assoc.keys targets).filter (Slot.isOf call) := by
    induction targets with
    | nil => simp [Assoc.keys]
    | cons entry rest ih =>
        intro t
        obtain ⟨slot, target⟩ := entry
        have hkeys : Assoc.keys ((slot, target) :: rest) = slot :: Assoc.keys rest := rfl
        rw [List.foldl_cons, ih, hkeys]
        cases slot with
        | call id port => by_cases hid : id = call <;>
                            simp [addTarget, Assoc.getAll_push, Slot.isOf, hid]
        | boundary port => rfl
        | «variable» name => simp only [addTarget, inputs_addSources]; rfl
  exact hfold {}

/-! ## Variables -/

section Names

/-! A list of names in the indices, to which a mapping adds the variable that it writes if it passes
a test. -/

variable {names : Indices → List String} {test : Mapping → Bool}

/-- A mapping that passes the test adds the name of its variable, once. -/
def Adds (names : Indices → List String) (test : Mapping → Bool) : Prop :=
  (∀ (t : Indices) inputs, names { t with inputs } = names t) ∧
  ∀ name t m, names (addSource name t m) =
    if test m = true ∧ name ∉ names t then names t ++ [name] else names t

theorem Adds.addSources (h : Adds names test) (name : String) (ms : List Mapping) (t : Indices) :
    names (ms.foldl (addSource name) t) =
      if ms.any test = true ∧ name ∉ names t then names t ++ [name] else names t := by
  induction ms generalizing t with
  | nil => simp
  | cons m rest ih =>
      rw [List.foldl_cons, ih, h.2]
      by_cases hname : name ∈ names t
      · simp [hname]
      · by_cases hm : test m = true <;> simp [hname, hm]

/-- The names of all variables with a mapping that passes the test, in the order of the targets. -/
theorem Adds.ofTargets (h : Adds names test) {targets : Assoc Slot Target}
    (honce : (Assoc.keys targets).Nodup) {t : Indices}
    (hnew : ∀ name, .variable name ∈ Assoc.keys targets → name ∉ names t) :
    names (targets.foldl addTarget t) = names t ++ targets.filterMap (Slot.variableWith? test) := by
  induction targets generalizing t with
  | nil => simp
  | cons entry rest ih =>
      obtain ⟨slot, target⟩ := entry
      obtain ⟨hslot, hrest⟩ := List.nodup_cons.1 honce
      have hlater : ∀ name, .variable name ∈ Assoc.keys rest → name ∉ names t :=
        fun name hname => hnew name (List.mem_cons_of_mem _ hname)
      rw [List.foldl_cons]
      cases slot with
      | call id port =>
          have hsame : names (t.addTarget (.call id port, target)) = names t := h.1 t _
          rw [ih hrest (hsame ▸ hlater), hsame]
          rfl
      | boundary port => exact ih hrest hlater
      | «variable» name =>
          have hname : name ∉ names t := hnew name (List.mem_cons_self ..)
          have hadded : names (t.addTarget (.variable name, target)) =
              names t ++ if target.mappings.any test then [name] else [] := by
            show names (target.mappings.foldl (addSource name) t) = _
            rw [h.addSources]
            by_cases hany : target.mappings.any test = true <;> simp [hany, hname]
          have hvariable : Slot.variableWith? test (.variable name, target) =
              if target.mappings.any test then some name else none := rfl
          rw [ih hrest, hadded, List.append_assoc, List.filterMap_cons, hvariable]
          · cases target.mappings.any test <;> simp
          · intro name' hname' hmem
            rw [hadded, List.mem_append] at hmem
            rcases hmem with hmem | hmem
            · exact hlater name' hname' hmem
            · -- the slot of the variable is not among the others
              split at hmem
              · rw [List.mem_singleton.1 hmem] at hname'
                exact hslot hname'
              · simp at hmem

theorem adds_fed (call : CallId) :
    Adds (fun t => Assoc.getAll t.fed call) fun m => m.sourceCall? == some call := by
  refine ⟨fun _ _ => rfl, fun name t m => ?_⟩
  cases hsource : m.source with
  | call id port =>
      by_cases hid : id = call <;>
        simp [addSource, Mapping.sourceCall?, hsource, Assoc.getAll_pushNew, hid]
  | constant _ | boundary _ | «variable» _ => simp [addSource, Mapping.sourceCall?, hsource]

theorem adds_readers (source : String) :
    Adds (fun t => Assoc.getAll t.readers source) fun m => m.readsVariable source := by
  refine ⟨fun _ _ => rfl, fun name t m => ?_⟩
  cases hsource : m.source with
  | «variable» name' =>
      by_cases hname : name' = source <;>
        simp [addSource, Mapping.readsVariable, hsource, Assoc.getAll_pushNew, hname]
  | constant _ | boundary _ | call _ _ => simp [addSource, Mapping.readsVariable, hsource]

end Names

end Indices

namespace Wiring

variable {w : Wiring}

/-- The variables with a group mapping that passes the test, in the order of their slots. -/
def variablesWith (w : Wiring) (test : Mapping → Bool) : List String :=
  w.targets.filterMap (Slot.variableWith? test)

/-- The table of mappings that accumulate has each under its source, in order of declaration. -/
theorem accumulatingFrom_eq (w : Wiring) (call : CallId) : w.accumulatingFrom call =
    w.mappings.filter fun m => m.isAccumulating && m.sourceCall? == some call := by
  rw [accumulatingFrom, w.accumulates, Mapping.getAll_accumulated]

theorem inputSlots_eq (w : Wiring) (call : CallId) :
    w.inputSlots call = (Assoc.keys w.targets).filter (Slot.isOf call) := by
  rw [inputSlots, w.indexed, Indices.getAll_inputs]

theorem fedBy_eq (w : Wiring) (call : CallId) :
    w.fedBy call = w.variablesWith fun m => m.sourceCall? == some call := by
  rw [fedBy, w.indexed, Indices.ofTargets]
  exact (Indices.adds_fed call).ofTargets w.once fun _ _ => List.not_mem_nil

theorem readers_eq (w : Wiring) (name : String) :
    w.readers name = w.variablesWith fun m => m.readsVariable name := by
  rw [readers, w.indexed, Indices.ofTargets]
  exact (Indices.adds_readers name).ofTargets w.once fun _ _ => List.not_mem_nil

/-- A variable with such a mapping is among those that groups write. -/
theorem sublist_variablesWith (w : Wiring) (test : Mapping → Bool) :
    (w.variablesWith test).Sublist w.writtenVariables := by
  unfold variablesWith writtenVariables
  induction w.targets with
  | nil => exact .slnil
  | cons entry rest ih =>
      obtain ⟨slot, target⟩ := entry
      have hkeys : Assoc.keys ((slot, target) :: rest) = slot :: Assoc.keys rest := rfl
      rw [hkeys]
      cases slot with
      | call _ _ | boundary _ => exact ih
      | «variable» name =>
          by_cases htest : target.mappings.any test = true
          · simpa [Slot.variableWith?, htest] using ih
          · simpa [Slot.variableWith?, htest] using ih.cons name

theorem mem_writtenVariables {name : String} :
    name ∈ w.writtenVariables ↔ .variable name ∈ Assoc.keys w.targets := by
  rw [writtenVariables, List.mem_filterMap]
  constructor
  · rintro ⟨slot, hslot, hname⟩
    cases slot with
    | call _ _ | boundary _ => simp at hname
    | «variable» n => exact Option.some.inj hname ▸ hslot
  · exact fun hslot => ⟨_, hslot, rfl⟩

theorem mem_accumulatingFrom {call : CallId} {m : Mapping} :
    m ∈ w.accumulatingFrom call ↔
      m ∈ w.mappings ∧ m.isAccumulating = true ∧ m.sourceCall? = some call := by
  simp [accumulatingFrom_eq]

theorem nodup_keys_nil : (Assoc.keys ([] : Assoc Slot Target)).Nodup := .nil

/-- The wiring of a composition without mappings. -/
def empty (composition : CompositionId) : Wiring := ofTargets composition [] [] nodup_keys_nil

end Wiring

end CallFlow
