import CallFlow.Proofs.Authority
import CallFlow.Proofs.Settle

/-!
# Variables that merge the outputs of calls

A variable may be mapped from outputs of several calls, each with the priority of its own call,
and from one constant without priority.  Such a variable works as a phi node: it holds what the
last of these calls to complete has published, and before any of them has completed it holds what
the caller has bound it to, or else the constant (`Walk.phi_of_reaches`).

That is an invariant of runs.  Seeding establishes it; a visit that completes one of the calls
re-reads the variable from the output of that call (`Flow.settle_shows`), and no other visit
writes it (`Composition.Merges.not_settlesInto`).
-/

namespace CallFlow

/-- The value that a mapping reads from a constant. -/
def Mapping.constant? (m : Mapping) : Option Value :=
  match m.source, m.sourceStrategy with
  | .constant k, none => some (.ofConstant k)
  | .constant k, some strategy => ((Value.ofConstant k).item strategy).toOption
  | _, _ => none

namespace Composition

/-- Is there a mapping into the variable with the priority of the call? -/
def keys (c : Composition) (name : String) (call : CallId) : Bool :=
  c.mappings.any fun m => Slot.of? m.target == some (.variable name) && m.priority == some call

/-- What the mapping without priority into the variable reads from its constant, if there is one. -/
def constantOf? (c : Composition) (name : String) : Option Value :=
  (c.mappings.find? fun m =>
    Slot.of? m.target == some (.variable name) && m.priority == none).bind Mapping.constant?

/-- All mappings into the variable write it directly, and each of them reads a constant and has no
priority, or reads an output that is declared of the call whose priority it has. -/
structure Merges (g : Graph) (c : Composition) (name : String) : Prop where
  direct : ∀ m ∈ c.mappings, m.target = .variable name → m.targetStrategy = none
  source : ∀ m ∈ c.mappings, m.target = .variable name →
    (m.priority = none ∧ ∃ k, m.source = .constant k) ∨
    ∃ call port, m.priority = some call ∧ m.source = .call call port ∧ m.sourceStrategy = none ∧
      port.isOutput = true ∧ ∀ decl ∈ c.calls, decl.id = call →
        ∀ d, g.function decl.function = .ok d → Graph.hasPort d port = true

namespace Merges

variable {g : Graph} {c : Composition} {name : String} {used : List CallId} {w : Wiring}

/-- A mapping of a group of the variable is one of the composition. -/
theorem of_mem_group (hw : w.mappings = Frame.liveMappings used c) {priority : Option CallId}
    {m : Mapping} (hm : m ∈ w.group (.variable name) priority) :
    m ∈ c.mappings ∧ m.target = .variable name ∧ m.priority = priority := by
  obtain ⟨hm, -, htarget, hpriority⟩ := Wiring.mem_group.1 hm
  rw [hw] at hm
  exact ⟨(List.mem_filter.1 hm).1, Slot.eq_of_of? htarget, hpriority⟩

/-- Groups without priority read constants. -/
theorem unprioritized (h : c.Merges g name)
    (hw : w.mappings = Frame.liveMappings used c) {m : Mapping}
    (hm : m ∈ w.group (.variable name) none) : ∃ k, m.source = .constant k := by
  obtain ⟨hmem, htarget, hpriority⟩ := of_mem_group hw hm
  rcases h.source m hmem htarget with ⟨-, hconstant⟩ | ⟨call, port, hsome, -⟩
  · exact hconstant
  · exact absurd (hpriority.symm.trans hsome) (by simp)

/-- The group that a call keys reads an output of that call. -/
theorem prioritized (h : c.Merges g name) (hw : w.mappings = Frame.liveMappings used c)
    {call : CallId}
    {m : Mapping} (hm : m ∈ w.group (.variable name) (some call)) :
    m.isDirect = true ∧ ∃ port, m = ⟨.call call port, none, .variable name, none, some call⟩ ∧
      port.isOutput = true ∧ ∀ decl ∈ c.calls, decl.id = call →
        ∀ d, g.function decl.function = .ok d → Graph.hasPort d port = true := by
  obtain ⟨hmem, htarget, hpriority⟩ := of_mem_group hw hm
  have hdirect := h.direct m hmem htarget
  rcases h.source m hmem htarget with ⟨hnone, -⟩ |
    ⟨call', port, hsome, hsource, hstrategy, hport, hdecl⟩
  · exact absurd (hpriority.symm.trans hnone) (by simp)
  · obtain rfl : call' = call := Option.some.inj (hsome.symm.trans hpriority)
    refine ⟨by simp [Mapping.isDirect, hdirect], port, ?_, hport, hdecl⟩
    cases m
    simp_all

theorem isDirect (h : c.Merges g name) (hw : w.mappings = Frame.liveMappings used c)
    {priority : Option CallId} {m : Mapping} (hm : m ∈ w.group (.variable name) priority) :
    m.isDirect = true := by
  obtain ⟨hmem, htarget, -⟩ := of_mem_group hw hm
  simp [Mapping.isDirect, h.direct m hmem htarget]

/-- The variable reads no variable. -/
theorem not_reader (h : c.Merges g name) (hw : w.mappings = Frame.liveMappings used c)
    (hb : w.Built)
    (source : String) : name ∉ w.readers source := by
  intro hname
  obtain ⟨priority, m, hm, hreads⟩ := hb.mem_readers.1 hname
  cases priority with
  | none =>
      obtain ⟨k, hk⟩ := h.unprioritized hw hm
      simp [Mapping.readsVariable, hk] at hreads
  | some call =>
      obtain ⟨-, port, rfl, -⟩ := h.prioritized hw hm
      simp [Mapping.readsVariable] at hreads

/-- A call feeds the variable if it keys a group of it, and only then. -/
theorem mem_fedBy_iff (h : c.Merges g name) (hw : w.mappings = Frame.liveMappings used c)
    (hb : w.Built)
    (call : CallId) : name ∈ w.fedBy call ↔ w.keyedBy (.variable name) call = true := by
  constructor
  · intro hname
    obtain ⟨priority, m, hm, hreads⟩ := hb.mem_fedBy.1 hname
    cases priority with
    | none =>
        obtain ⟨k, hk⟩ := h.unprioritized hw hm
        simp [Mapping.sourceCall?, hk] at hreads
    | some call' =>
        obtain ⟨-, port, rfl, -⟩ := h.prioritized hw hm
        have hcall : call' = call := by simpa [Mapping.sourceCall?] using hreads
        rw [hcall] at hm
        simp [Wiring.keyedBy, List.ne_nil_of_mem hm]
  · intro hkeyed
    have hne : w.group (.variable name) (some call) ≠ [] := by simpa [Wiring.keyedBy] using hkeyed
    obtain ⟨m, hm⟩ := List.exists_mem_of_ne_nil _ hne
    obtain ⟨-, port, rfl, -⟩ := h.prioritized hw hm
    exact hb.mem_fedBy.2 ⟨some call, _, hm, by simp [Mapping.sourceCall?]⟩

/-- Nothing is pushed into the variable. -/
theorem not_pushed (h : c.Merges g name) (hw : w.mappings = Frame.liveMappings used c) {m : Mapping}
    {call : CallId} (hm : m ∈ w.accumulatingFrom call) :
    Slot.of? m.target ≠ some (.variable name) := by
  intro htarget
  obtain ⟨hm, hacc, -⟩ := Wiring.mem_accumulatingFrom.1 hm
  rw [hw] at hm
  have hdirect := h.direct m (List.mem_filter.1 hm).1 (Slot.eq_of_of? htarget)
  simp [Mapping.isAccumulating, hdirect] at hacc

/-- **The completion of a call that keys no group of the variable does not write it.** -/
theorem not_settlesInto (h : c.Merges g name) (hw : w.mappings = Frame.liveMappings used c)
    (hb : w.Built) {call : CallId} (hkeyed : w.keyedBy (.variable name) call = false) :
    ¬ Flow.SettlesInto w call (.variable name) := by
  rintro (⟨m, hm, htarget⟩ | ⟨n, heq, hfed | ⟨source, hreader⟩⟩)
  · exact h.not_pushed hw hm htarget
  · obtain rfl := Slot.variable.inj heq
    rw [(h.mem_fedBy_iff hw hb call).1 hfed] at hkeyed
    exact absurd hkeyed (by simp)
  · obtain rfl := Slot.variable.inj heq
    exact h.not_reader hw hb source hreader

/-- A used call keys a group of the variable if the composition maps it there with its priority. -/
theorem keyedBy_eq (h : c.Merges g name) (hw : w.mappings = Frame.liveMappings used c)
    {call : CallId}
    (hused : used.contains call = true) : w.keyedBy (.variable name) call = c.keys name call := by
  rw [Bool.eq_iff_iff]
  constructor
  · intro hkeyed
    have hne : w.group (.variable name) (some call) ≠ [] := by simpa [Wiring.keyedBy] using hkeyed
    obtain ⟨m, hm⟩ := List.exists_mem_of_ne_nil _ hne
    obtain ⟨hmem, htarget, hpriority⟩ := of_mem_group hw hm
    exact List.any_eq_true.2 ⟨m, hmem, by simp [htarget, hpriority, Slot.of?]⟩
  · intro hkeys
    obtain ⟨m, hmem, htest⟩ := List.any_eq_true.1 hkeys
    simp only [Bool.and_eq_true, beq_iff_eq] at htest
    obtain ⟨htarget, hpriority⟩ := htest
    have hdirect := h.direct m hmem (Slot.eq_of_of? htarget)
    have hlive : m ∈ w.mappings := by
      rw [hw]
      refine List.mem_filter.2 ⟨hmem, ?_⟩
      rcases h.source m hmem (Slot.eq_of_of? htarget) with ⟨hnone, -⟩ |
        ⟨call', port, hsome, hsource, -⟩
      · exact absurd (hpriority.symm.trans hnone) (by simp)
      · obtain rfl : call' = call := Option.some.inj (hsome.symm.trans hpriority)
        simp [hsource, Slot.eq_of_of? htarget, Frame.isLive] at hused ⊢
        exact hused
    have hm : m ∈ w.group (.variable name) (some call) :=
      Wiring.mem_group.2 ⟨hlive, by simp [Mapping.isAccumulating, hdirect], htarget, hpriority⟩
    simp [Wiring.keyedBy, List.ne_nil_of_mem hm]

theorem mem_group_none_iff (h : c.Merges g name) (hw : w.mappings = Frame.liveMappings used c)
    {m : Mapping} : m ∈ w.group (.variable name) none ↔ m ∈ c.mappings ∧
      (Slot.of? m.target == some (.variable name) && m.priority == none) = true := by
  constructor
  · intro hm
    obtain ⟨hmem, htarget, hpriority⟩ := of_mem_group hw hm
    exact ⟨hmem, by simp [htarget, hpriority, Slot.of?]⟩
  · rintro ⟨hmem, htest⟩
    simp only [Bool.and_eq_true, beq_iff_eq] at htest
    obtain ⟨htarget, hpriority⟩ := htest
    have hdirect := h.direct m hmem (Slot.eq_of_of? htarget)
    have hlive : m ∈ w.mappings := by
      rw [hw]
      refine List.mem_filter.2 ⟨hmem, ?_⟩
      rcases h.source m hmem (Slot.eq_of_of? htarget) with ⟨-, k, hk⟩ | ⟨call, port, hsome, -⟩
      · simp [hk, Slot.eq_of_of? htarget, Frame.isLive]
      · exact absurd (hpriority.symm.trans hsome) (by simp)
    exact Wiring.mem_group.2 ⟨hlive, by simp [Mapping.isAccumulating, hdirect], htarget, hpriority⟩

/-- The group without priority is the mapping from the constant, if there is one. -/
theorem constantOf?_eq (h : c.Merges g name) (hw : w.mappings = Frame.liveMappings used c)
    (hb : w.Built) :
    (w.group (.variable name) none = [] ∧ c.constantOf? name = none) ∨
      ∃ m, w.group (.variable name) none = [m] ∧ m.isDirect = true ∧ (∃ k, m.source = .constant k) ∧
        c.constantOf? name = m.constant? := by
  cases hfind : c.mappings.find? fun m =>
      Slot.of? m.target == some (.variable name) && m.priority == none with
  | none =>
      refine .inl ⟨List.eq_nil_iff_forall_not_mem.2 fun m hm => ?_, by rw [constantOf?, hfind]; rfl⟩
      obtain ⟨hmem, htest⟩ := (h.mem_group_none_iff hw).1 hm
      exact absurd htest (List.find?_eq_none.1 hfind m hmem)
  | some m =>
      have htest := List.find?_some hfind
      have hm : m ∈ w.group (.variable name) none :=
        (h.mem_group_none_iff hw).2 ⟨List.mem_of_find?_eq_some hfind, htest⟩
      have hdirect := h.isDirect hw hm
      exact .inr ⟨m, hb.group_eq_singleton hm hdirect, hdirect, h.unprioritized hw hm,
        by rw [constantOf?, hfind]; rfl⟩

end Merges

end Composition

/-! ## Before any call has completed -/

/-- A mapping from a constant reads the same in every scene. -/
theorem Scene.read_constant {s : Scene} {m : Mapping} {k : Constant} (hk : m.source = .constant k)
    {v : Option Value} (h : s.read m = .ok v) : ∃ x, v = some x ∧ m.constant? = some x := by
  unfold read at h
  rw [hk, show s.peek (.constant k) = some (.ofConstant k) from rfl] at h
  cases hstrategy : m.sourceStrategy with
  | none =>
      simp only [hstrategy, Except.ok.injEq] at h
      exact ⟨_, h.symm, by simp [Mapping.constant?, hk, hstrategy]⟩
  | some strategy =>
      cases hitem : (Value.ofConstant k).item strategy with
      | error reason => simp [hstrategy, hitem] at h
      | ok item =>
          simp only [hstrategy, hitem, Except.ok.injEq] at h
          exact ⟨item, h.symm, by simp [Mapping.constant?, hk, hstrategy, hitem, Except.toOption]⟩

namespace Flow

/-- Seeding leaves a variable that reads no variable as it was planted, and as it was if it has no
seed. -/
theorem peek_seed {s s' : Scene} {name : String}
    (hreader : ∀ source, name ∉ s.frame.wiring.readers source) (hseed : seed.run s = (.ok (), s')) :
    ∃ l planted s₁, seeds s s.frame.wiring.writtenVariables = .ok l ∧
      (plant l).run s = (.ok planted, s₁) ∧
      s'.peek (.variable name) = s₁.peek (.variable name) ∧
      ((∀ writes, (name, writes) ∉ l) → s'.peek (.variable name) = s.peek (.variable name)) := by
  obtain ⟨l, planted, s₁, refreshed, hl, hplant, hpropagate⟩ := seed_eq_ok hseed
  have hplanted := evolves_plant_of_seeds hl
  rw [hplant] at hplanted
  have hpropagated := evolves_propagate s₁ planted
  rw [hpropagate, hplanted.wiring] at hpropagated
  have hlast : s'.peek (.variable name) = s₁.peek (.variable name) := by
    apply hpropagated.peek_eq
    intro slot hslot
    rintro ⟨n, source, rfl, hreads⟩
    obtain rfl := Slot.variable.inj (Option.some.inj hslot)
    exact hreader source hreads
  refine ⟨l, planted, s₁, hl, hplant, hlast, ?_⟩
  intro hnone
  rw [hlast]
  apply hplanted.peek_eq
  intro slot hslot
  rintro ⟨⟨n, writes⟩, hmem, rfl⟩
  obtain rfl := Slot.variable.inj (Option.some.inj hslot)
  exact hnone writes hmem

/-- The seed of a variable into which one constant is mapped is that constant. -/
theorem seed_of_constant {s : Scene} {names : List String} {name : String} {m : Mapping}
    {k : Constant}
    {l : List (String × List (Option Strategy × Value))} {writes : List (Option Strategy × Value)}
    (hl : seeds s names = .ok l) (hcurrent : s.frame.wiring.current? (.variable name) = some [m])
    (hdirect : m.isDirect = true) (hk : m.source = .constant k) (hmem : (name, writes) ∈ l) :
    ∃ x, m.constant? = some x ∧ writes = [(none, x)] := by
  obtain ⟨-, -, group, hsome, hread⟩ := mem_seeds hl hmem
  obtain rfl : [m] = group := Option.some.inj (hcurrent.symm.trans hsome)
  obtain ⟨v, hv, rfl⟩ := readGroup_direct hdirect hread
  obtain ⟨x, rfl, hx⟩ := Scene.read_constant hk hv
  exact ⟨x, hx, rfl⟩

/-- **After seeding the variable holds what it is bound to, or else the constant.** -/
theorem seed_shows {s s' : Scene} {g : Graph} {c : Composition} {name : String}
    {used : List CallId} (h : c.Merges g name)
    (hw : s.frame.wiring.mappings = Frame.liveMappings used c) (hb : s.frame.wiring.Built)
    (hreset : s.frame.wiring.reset = s.frame.wiring) (hseed : seed.run s = (.ok (), s'))
    (hfresh : (Assoc.find? s.frame.vars name).any Terminal.isFresh
      = (s.peek (.variable name)).isSome) :
    s'.peek (.variable name) = (s.peek (.variable name)).or (c.constantOf? name) := by
  obtain ⟨l, planted, s₁, hl, hplant, hlast, huntouched⟩ := peek_seed (h.not_reader hw hb) hseed
  cases hbound : s.peek (.variable name) with
  | some v =>
      have hnone : ∀ writes, (name, writes) ∉ l := by
        intro writes hmem
        obtain ⟨-, hnotfresh, -⟩ := mem_seeds hl hmem
        rw [hfresh, hbound] at hnotfresh
        exact absurd hnotfresh (by simp)
      rw [huntouched hnone, hbound, Option.some_or]
  | none =>
      rw [hbound, Option.isSome_none] at hfresh
      have hcurrent := hb.current?_of_reset hreset (.variable name)
      rcases h.constantOf?_eq hw hb with ⟨hnil, hconstant⟩ |
        ⟨m, hgroup, hdirect, ⟨k, hk⟩, hconstant⟩
      · have hnone : ∀ writes, (name, writes) ∉ l := by
          intro writes hmem
          obtain ⟨-, -, group, hsome, -⟩ := mem_seeds hl hmem
          rw [hcurrent, if_pos hnil] at hsome
          exact absurd hsome (by simp)
        rw [hconstant, Option.none_or, huntouched hnone, hbound]
      · rw [if_neg (by simp [hgroup]), hgroup] at hcurrent
        have hname : name ∈ s.frame.wiring.writtenVariables :=
          Wiring.mem_writtenVariables_of_current? hcurrent
        obtain ⟨writes, hmem⟩ := exists_seed hl hname hfresh hcurrent
        obtain ⟨x, hx, -⟩ := seed_of_constant hl hcurrent hdirect hk hmem
        have hseeds : ∀ writes, (name, writes) ∈ l → writes = [(none, x)] := by
          intro writes hmem
          obtain ⟨x', hx', hwrites⟩ := seed_of_constant hl hcurrent hdirect hk hmem
          obtain rfl : x = x' := Option.some.inj (hx.symm.trans hx')
          exact hwrites
        rw [hconstant, hx, Option.none_or, hlast, Scene.peek_variable]
        exact plant_shows hplant hseeds (.inl ⟨writes, hmem⟩)

end Flow

/-! ## When a call completes -/

/-- A call that completes leaves the variables that it keys with what it has published. -/
theorem Flow.settle_shows {s s' : Scene} {call : CallId} {order : List String} {name : String}
    {m : Mapping} {port : Port} {v : Value} (hb : s.frame.wiring.Built)
    (hm : m ∈ s.frame.wiring.group (.variable name) (some call)) (hdirect : m.isDirect = true)
    (hsource : m.source = .call call port) (hport : port.isOutput = true)
    (hpeek : s.peek m.source = some v) (hstrategy : m.sourceStrategy = none)
    (h : (settle call).run s = (.ok order, s')) : s'.peek (.variable name) = some v := by
  obtain ⟨x, hread, hshows⟩ := (settles_of_settle hb hm hdirect (by simp [hpeek]) h).own
    (by simp [Mapping.sourceCall?, hsource])
  -- pushes go into inputs, so that the output stays as the call has published it
  have hpublished : s'.peek m.source = some v := by
    rw [← hpeek]
    refine (evolves_settle_of_eq h).peek_eq ?_
    intro slot hslot
    rw [hsource] at hslot
    obtain rfl := Option.some.inj hslot
    rintro (⟨m', hm', htarget⟩ | ⟨n, heq, -⟩)
    · obtain ⟨slot, hslot', hinput⟩ := hb.exists_slot (Wiring.mem_accumulatingFrom.1 hm').1
      obtain rfl := Option.some.inj (htarget.symm.trans hslot')
      simp [Slot.isInput, hport] at hinput
    · exact absurd heq (by simp)
  simp only [Scene.read, hpublished, hstrategy, Except.ok.injEq] at hread
  rw [hshows, ← hread]

namespace Walk

variable {ctx : Context} {id : CompositionId} {inputs : List (String × Value)} {depth : Nat}
  {w₀ w w' : Walk} {history : List Visit}

/-- A visit of a run executes a call that the composition declares and uses, and leaves terminals
that the description of its function declares. -/
theorem exists_declaration {run : Runner} (hrun : run.Faithful) {v : Visit}
    {r r' : Except RunFault (Option CallId)} (hbegins : w₀.Begins ctx id inputs)
    (hreaches : Reaches ctx depth w₀ history r w) (hexecutes : Executes ctx run depth w v r' w') :
    ∃ c used decl d, ctx.graph.composition id = .ok c ∧
      w.scene.frame.wiring.mappings = Frame.liveMappings used c ∧ used.contains v.call = true ∧
      decl ∈ c.calls ∧ decl.id = v.call ∧ ctx.graph.function decl.function = .ok d ∧
      v.terminals.reset = .ofDescription d (.call v.call) ctx.checked := by
  obtain ⟨f, hf, hbind⟩ := hbegins.exists_frame
  obtain ⟨call, hcall, hterminals⟩ := hexecutes.exists_call hrun
  have hframe : w.scene.frame.reset = f := by
    rw [hreaches.keeps.frame hbegins.closed, Frame.reset_bindVariables hbind,
      Frame.reset_of_ofGraph hf]
  have hdeclared : Assoc.find? f.calls v.call = some call.reset := by
    rw [← hframe]
    simp [Frame.reset, hcall]
  obtain ⟨c, used, decl, d, hc, hmappings, hused, hdecl, hid, hd, happlied⟩ :=
    Frame.exists_description hf hdeclared
  refine ⟨c, used, decl, d, hc, ?_, hused, hdecl, hid, hd, ?_⟩
  · rw [← hmappings, ← hframe]
    rfl
  · rw [hterminals, show call.terminals.reset = call.reset.terminals from rfl, happlied]
    rfl

/-- The last visit of a history that has completed a call with a mapping into the variable. -/
def lastMerged? (c : Composition) (name : String) (history : List Visit) : Option Visit :=
  history.find? fun v => v.outcome == .completed && c.keys name v.call

/-- What the variable holds after the visits of a history: what the last of them that counts has
published at the port that is mapped, or what holds before any has. -/
structure Merged (c : Composition) (name : String) (inputs : List (String × Value))
    (history : List Visit) (value : Option Value) : Prop where
  published : ∀ v, lastMerged? c name history = some v → ∃ port x,
    ⟨.call v.call port, none, .variable name, none, some v.call⟩ ∈ c.mappings ∧
      (v.terminals.get? port).bind Terminal.peek = some x ∧ value = some x
  before : lastMerged? c name history = none →
    value = (Assoc.find? inputs.reverse name).or (c.constantOf? name)

/-- A visit that completes no call with a mapping into the variable does not write it. -/
theorem unmerged_of_executes {fuel : Nat} {v : Visit} {r r' : Except RunFault (Option CallId)}
    {c : Composition} {name : String} (hbegins : w₀.Begins ctx id inputs)
    (hreaches : Reaches ctx depth w₀ history r w)
    (hexecutes : Executes ctx (runner (steps ctx fuel)) depth w v r' w')
    (hc : ctx.graph.composition id = .ok c) (hmerges : c.Merges ctx.graph name)
    (hv : v.outcome = .completed → c.keys name v.call = false) :
    w'.scene.terminal? (.variable name) = w.scene.terminal? (.variable name) := by
  have hrun := faithful_runner ctx fuel
  have houtside : ¬ (Slot.variable name).Inside v.call := fun ⟨_, h⟩ => absurd h (by simp)
  by_cases hcompleted : v.outcome = .completed
  · obtain ⟨c', used, -, -, hc', hmappings, hused, -⟩ :=
      exists_declaration hrun hbegins hreaches hexecutes
    obtain rfl : c = c' := Except.ok.inj (hc.symm.trans hc')
    obtain ⟨s, settled, hsettle, -, -, hwiring, hothers, -⟩ := hexecutes.completed hrun hcompleted
    have hbuilt := built_of_reaches hbegins hreaches
    have hkeyed : w.scene.frame.wiring.keyedBy (.variable name) v.call = false := by
      rw [hmerges.keyedBy_eq hmappings hused]
      exact hv hcompleted
    have hsettles := hmerges.not_settlesInto hmappings hbuilt hkeyed
    rw [← hwiring] at hsettles
    rw [(Flow.evolves_settle_of_eq hsettle).others _ hsettles]
    exact hothers _ houtside
  · exact (hexecutes.not_completed hcompleted).2 _ houtside

theorem lastMerged?_cons_of_not {c : Composition} {name : String} {v : Visit}
    (h : v.outcome = .completed → c.keys name v.call = false) :
    lastMerged? c name (v :: history) = lastMerged? c name history := by
  unfold lastMerged?
  rw [List.find?_cons_of_neg]
  simpa using h

/-- A visit that completes a call with a mapping into the variable leaves it with what the call has
published at the port that is mapped. -/
theorem published_of_executes {fuel : Nat} {v : Visit} {r : Except RunFault (Option CallId)}
    {next : Option CallId} {c : Composition} {name : String} (hbegins : w₀.Begins ctx id inputs)
    (hreaches : Reaches ctx depth w₀ history r w)
    (hexecutes : Executes ctx (runner (steps ctx fuel)) depth w v (.ok next) w')
    (hc : ctx.graph.composition id = .ok c) (hmerges : c.Merges ctx.graph name)
    (hcompleted : v.outcome = .completed) (hkeys : c.keys name v.call = true) :
    ∃ port x, ⟨.call v.call port, none, .variable name, none, some v.call⟩ ∈ c.mappings ∧
      (v.terminals.get? port).bind Terminal.peek = some x ∧
      w'.scene.peek (.variable name) = some x := by
  have hrun := faithful_runner ctx fuel
  obtain ⟨c', used, decl, d, hc', hmappings, hused, hdecl, hid, hd, hterminals⟩ :=
    exists_declaration hrun hbegins hreaches hexecutes
  obtain rfl : c = c' := Except.ok.inj (hc.symm.trans hc')
  obtain ⟨s, settled, hsettle, ⟨next', hr⟩, -, hwiring, -, hpeek, hpublished⟩ :=
    hexecutes.completed hrun hcompleted
  have hbuilt := built_of_reaches hbegins hreaches
  rw [← hwiring] at hmappings hbuilt
  have hkeyed : s.frame.wiring.keyedBy (.variable name) v.call = true := by
    rw [hmerges.keyedBy_eq hmappings hused]
    exact hkeys
  obtain ⟨m, hm⟩ := List.exists_mem_of_ne_nil _
    (show s.frame.wiring.group (.variable name) (some v.call) ≠ [] by
      simpa [Wiring.keyedBy] using hkeyed)
  obtain ⟨hmem, -, -⟩ := Composition.Merges.of_mem_group hmappings hm
  obtain ⟨hdirect, port, rfl, hport, hdeclares⟩ := hmerges.prioritized hmappings hm
  -- the port is declared, so that the call has published something there
  have hget : (v.terminals.get? port).isSome = true := by
    have hreset := Terminals.get?_reset v.terminals port
    rw [hterminals] at hreset
    have hdeclared :
        ((Terminals.ofDescription d (.call v.call) ctx.checked).get? port).isSome = true :=
      (Terminals.isSome_get?_ofDescription d _ _ port).trans (hdeclares decl hdecl hid d hd)
    rwa [hreset, Option.isSome_map] at hdeclared
  obtain ⟨x, hx⟩ := hpublished.exists_peek hport hget
  refine ⟨port, x, hmem, hx, ?_⟩
  cases settled with
  | error fault => exact absurd hr (by simp [Except.map])
  | ok order =>
      exact Flow.settle_shows hbuilt hm hdirect rfl hport ((hpeek port).trans hx) rfl hsettle

/-- The run invariant: seeding establishes it, and every visit keeps it. -/
theorem merged_of_reaches {r : Except RunFault (Option CallId)} {c : Composition} {name : String}
    (hbegins : w₀.Begins ctx id inputs) (hreaches : Reaches ctx depth w₀ history r w)
    (hc : ctx.graph.composition id = .ok c) (hmerges : c.Merges ctx.graph name)
    {next : Option CallId} (hr : r = .ok next) :
    Merged c name inputs history (w.scene.peek (.variable name)) := by
  induction hreaches generalizing next with
  | @seeded s hseed =>
      refine ⟨fun v hv => absurd hv (by simp [lastMerged?]), ?_⟩
      intro _
      obtain ⟨c', used, hc', hmappings⟩ := hbegins.mappings
      obtain rfl : c = c' := Except.ok.inj (hc.symm.trans hc')
      obtain ⟨hpeek, hfresh⟩ := hbegins.bound name
      have hshows :=
        Flow.seed_shows hmerges hmappings hbegins.built hbegins.reset_wiring hseed hfresh
      rw [hpeek] at hshows
      exact hshows
  | refused _ _ _ => exact absurd hr (by simp)
  | @executed history fuel v w w' r hbefore hexecutes ih =>
      subst hr
      by_cases hcounts : v.outcome = .completed ∧ c.keys name v.call = true
      · obtain ⟨hcompleted, hkeys⟩ := hcounts
        have hlast : lastMerged? c name (v :: history) = some v := by
          simp [lastMerged?, hcompleted, hkeys]
        refine ⟨fun v' hv' => ?_, fun hnone => absurd (hlast.symm.trans hnone) (by simp)⟩
        obtain rfl : v = v' := Option.some.inj (hlast.symm.trans hv')
        exact published_of_executes hbegins hbefore hexecutes hc hmerges hcompleted hkeys
      · have hnot : v.outcome = .completed → c.keys name v.call = false := by simpa using hcounts
        have hsame := unmerged_of_executes hbegins hbefore hexecutes hc hmerges hnot
        have hmerged := ih rfl
        rw [Scene.peek_variable, hsame, ← Scene.peek_variable]
        exact ⟨fun v' hv' => hmerged.published v' (by rwa [lastMerged?_cons_of_not hnot] at hv'),
          fun hnone => hmerged.before (by rwa [lastMerged?_cons_of_not hnot] at hnone)⟩

/-- **A variable that merges outputs of calls is a phi node.**  Between any two visits of any run it
holds what the last of these calls to complete has published, and before any has it holds what the
caller has bound it to, or else its constant.  A visit that completes none of these calls does not
write it. -/
theorem phi_of_reaches {next : Option CallId} {c : Composition} {name : String}
    (hbegins : w₀.Begins ctx id inputs) (hreaches : Reaches ctx depth w₀ history (.ok next) w)
    (hc : ctx.graph.composition id = .ok c) (hmerges : c.Merges ctx.graph name) :
    Merged c name inputs history (w.scene.peek (.variable name)) ∧
      ∀ {fuel : Nat} {v : Visit} {r : Except RunFault (Option CallId)} {w' : Walk},
        next = some v.call → Executes ctx (runner (steps ctx fuel)) depth w v r w' →
        (v.outcome = .completed → c.keys name v.call = false) →
        w'.scene.terminal? (.variable name) = w.scene.terminal? (.variable name) :=
  ⟨merged_of_reaches hbegins hreaches hc hmerges rfl, fun _ hexecutes hv =>
    unmerged_of_executes hbegins hreaches hexecutes hc hmerges hv⟩

end Walk

namespace Sample

theorem merges : branching.Merges context.graph "flag" where
  direct m hm htarget := by
    simp only [branching, List.mem_cons, List.not_mem_nil, or_false] at hm
    rcases hm with rfl | rfl | rfl | rfl | rfl | rfl | rfl <;> rfl
  source m hm htarget := by
    simp only [branching, List.mem_cons, List.not_mem_nil, or_false] at hm
    rcases hm with rfl | rfl | rfl | rfl | rfl | rfl | rfl
    · exact absurd htarget (by simp)
    · exact absurd htarget (by simp)
    · exact absurd htarget (by simp)
    · exact .inl ⟨rfl, _, rfl⟩
    · exact .inr ⟨_, _, rfl, rfl, rfl, rfl, fun _ _ _ _ _ => rfl⟩
    · exact absurd htarget (by simp)
    · exact absurd htarget (by simp)

end Sample

/-- Behind the branch the variable holds what the first call has published, and the call that is
visited there does not write it. -/
theorem Walk.phi_of_reaches_sample : ∃ v₀ v₂ w w' fuel,
    Walk.Reaches Sample.context 0 (Sample.startOf Sample.context) [v₀] (.ok (some v₂.call)) w ∧
      v₀.call = ⟨0⟩ ∧ v₀.outcome = .completed ∧
      Executes Sample.context (runner (steps Sample.context fuel)) 0 w v₂ (.ok none) w' ∧
      Merged Sample.branching "flag" [] [v₀] (w.scene.peek (.variable "flag")) ∧
      w'.scene.terminal? (.variable "flag") = w.scene.terminal? (.variable "flag") := by
  obtain ⟨v₀, v₂, w', hreaches, hv₀, hcompleted, hv₂, -⟩ := Sample.reaches
  cases hreaches with
  | @executed _ fuel _ w _ _ hbefore hexecutes =>
      obtain ⟨hmerged, hsame⟩ :=
        phi_of_reaches (Sample.begins_startOf Sample.ofGraph_eq) hbefore rfl
        Sample.merges
      exact ⟨v₀, v₂, w, w', fuel, hbefore, hv₀, hcompleted, hexecutes, hmerged,
        hsame rfl hexecutes fun _ => by rw [hv₂]; rfl⟩

end CallFlow
