import CallFlow.Proofs.Assoc
import CallFlow.Proofs.Groups

/-!
# The partition of mappings

`Wiring.build` puts every mapping in one place: with those that accumulate from its source call,
or in the group of its slot and priority (`Mapping.part?`).  It accepts mappings of which no write
gets in the way of another (`Wiring.Acceptable`), in whatever order they are declared.

The main statement is `Wiring.build_partitions`.  It covers what is looked up in a wiring as well:
the slots of a call that groups write, and the variables that a call feeds or that read a
variable.
-/

namespace CallFlow

/-! ## What is accepted -/

/-- A place that mappings can write: an input of a call, an output of the boundary, or a
variable. -/
inductive Endpoint.IsTarget : Endpoint → Prop where
  | input {call : CallId} {port : Port} (h : port.isOutput = false) : IsTarget (.call call port)
  | output {port : Port} (h : port.isOutput = true) : IsTarget (.boundary port)
  | variable (name : String) : IsTarget (.variable name)

/-- Two mappings of one group get in each other's way: one of them writes the whole value, or both
write the same position or the same entry. -/
inductive Mapping.Clash : Option Strategy → Option Strategy → Prop where
  | direct : Clash none none
  | mixedLeft (strategy : Strategy) : Clash none (some strategy)
  | mixedRight (strategy : Strategy) : Clash (some strategy) none
  | index (position : Nat) : Clash (some (.index position)) (some (.index position))
  | key (name : String) : Clash (some (.key name)) (some (.key name))

theorem Mapping.Clash.symm {a b : Option Strategy} (h : Clash a b) : Clash b a := by
  cases h with
  | direct => exact .direct
  | mixedLeft strategy => exact .mixedRight strategy
  | mixedRight strategy => exact .mixedLeft strategy
  | index position => exact .index position
  | key name => exact .key name

theorem Mapping.clash_none_left (a : Option Strategy) : Clash none a := by
  cases a with
  | none => exact .direct
  | some strategy => exact .mixedLeft strategy

/-- Strategies clash if they are one, unless they append. -/
theorem Mapping.clash_some_iff {a b : Strategy} :
    Clash (some a) (some b) ↔ a ≠ .append ∧ a = b := by
  constructor
  · intro h
    cases h with
    | index position => exact ⟨by simp, rfl⟩
    | key name => exact ⟨by simp, rfl⟩
  · rintro ⟨hne, rfl⟩
    cases a with
    | index position => exact .index position
    | key name => exact .key name
    | append => exact absurd rfl hne

namespace Mapping

variable {m : Mapping}

theorem not_isAccumulating_of_isDirect (h : m.isDirect = true) : m.isAccumulating = false := by
  have hnone : m.targetStrategy = none := Option.isNone_iff_eq_none.1 h
  simp [isAccumulating, hnone]

end Mapping

namespace Wiring

/-- Every mapping has a target, and no write gets in the way of another. -/
structure Acceptable (ms : List Mapping) : Prop where
  targets : ∀ m ∈ ms, m.target.IsTarget
  groups : ∀ slot priority,
    (groupIn ms slot priority).Pairwise fun m m' =>
      ¬ Mapping.Clash m.targetStrategy m'.targetStrategy
  appends : ∀ m ∈ ms, ∀ m' ∈ ms, m.isAccumulating = true → m'.isDirect = true →
    Slot.of? m.target ≠ Slot.of? m'.target

/-- The order of mappings does not matter. -/
theorem Acceptable.perm {ms ms' : List Mapping} (hperm : ms'.Perm ms) (h : Acceptable ms) :
    Acceptable ms' where
  targets m hm := h.targets m (hperm.mem_iff.1 hm)
  groups slot priority :=
    ((hperm.filter _).pairwise_iff fun hclash h => hclash h.symm).2 (h.groups slot priority)
  appends m hm m' hm' := h.appends m (hperm.mem_iff.1 hm) m' (hperm.mem_iff.1 hm')

theorem exists_slotOf_iff {m : Mapping} : (∃ slot, slotOf m = .ok slot) ↔ m.target.IsTarget := by
  simp only [slotOf_eq_ok_iff]
  constructor
  · rintro ⟨slot, hslot, hinput⟩
    cases htarget : m.target with
    | constant value => exact absurd (htarget ▸ hslot) (by simp [Slot.of?])
    | call call port =>
        obtain rfl : .call call port = slot := by simpa [htarget, Slot.of?] using hslot
        exact .input (by simpa [Slot.isInput] using hinput)
    | boundary port =>
        obtain rfl : .boundary port = slot := by simpa [htarget, Slot.of?] using hslot
        exact .output hinput
    | «variable» name => exact .variable name
  · intro h
    generalize m.target = target at h
    cases h with
    | input hport => exact ⟨_, rfl, by simpa [Slot.isInput] using hport⟩
    | output hport => exact ⟨_, rfl, hport⟩
    | «variable» name => exact ⟨_, rfl, rfl⟩

/-- A direct mapping clashes with every other. -/
theorem eq_singleton_of_pairwise {g : List Mapping}
    (h : g.Pairwise fun m m' => ¬ Mapping.Clash m.targetStrategy m'.targetStrategy)
    {m : Mapping} (hm : m ∈ g)
    (hdirect : m.isDirect = true) : g = [m] := by
  have hnone : m.targetStrategy = none := Option.isNone_iff_eq_none.1 hdirect
  cases g with
  | nil => exact absurd hm (by simp)
  | cons first rest =>
      obtain ⟨hfirst, -⟩ := List.pairwise_cons.1 h
      rcases List.mem_cons.1 hm with rfl | hm
      · rw [hnone] at hfirst
        cases rest with
        | nil => rfl
        | cons other rest => exact absurd (Mapping.clash_none_left _) (hfirst other (by simp))
      · refine absurd ?_ (hfirst m hm)
        rw [hnone]
        exact (Mapping.clash_none_left _).symm

/-- **A group is without fault just if no two of its writes clash.** -/
theorem groupFault?_eq_none_iff {slot : Slot} {priority : Option CallId} {g : List Mapping} :
    groupFault? slot priority g = none ↔
      g.Pairwise fun m m' => ¬ Mapping.Clash m.targetStrategy m'.targetStrategy := by
  by_cases hdirect : ∃ m ∈ g, m.isDirect = true
  · obtain ⟨m, hm, hdirect⟩ := hdirect
    constructor
    · intro h
      rw [eq_singleton_of_groupFault? h hm hdirect]
      exact List.pairwise_singleton ..
    · intro h
      rw [eq_singleton_of_pairwise h hm hdirect]
      have hnone : m.targetStrategy = none := Option.isNone_iff_eq_none.1 hdirect
      simp [groupFault?, hdirect, hnone, repeated?]
  · have hnone : ∀ m ∈ g, m.isDirect = false := by simpa using hdirect
    have hcount : (g.filter Mapping.isDirect).length = 0 := by
      simpa [List.filter_eq_nil_iff] using hnone
    have hfault : groupFault? slot priority g = none ↔
        repeated? [] (g.filterMap (·.targetStrategy)) = none := by
      simp [groupFault?, hcount]
    rw [hfault, repeated?_eq_none_iff, List.pairwise_filterMap]
    simp only [List.not_mem_nil, not_false_eq_true, implies_true, and_true]
    refine List.Pairwise.iff_of_mem fun {m m'} hm hm' => ?_
    obtain ⟨a, ha⟩ : ∃ a, m.targetStrategy = some a := by
      simpa [Mapping.isDirect, Option.isSome_iff_exists] using hnone m hm
    obtain ⟨b, hb⟩ : ∃ b, m'.targetStrategy = some b := by
      simpa [Mapping.isDirect, Option.isSome_iff_exists] using hnone m' hm'
    rw [ha, hb, Mapping.clash_some_iff]
    simp

/-- **What is accepted**: mappings that have targets and of which no write gets in the way of
another. -/
theorem exists_build_iff {composition : CompositionId} {ms : List Mapping} :
    (∃ w, build composition ms = .ok w) ↔ Acceptable ms := by
  constructor
  · rintro ⟨w, h⟩
    have hbuilt := built_of_build h
    have hmappings := mappings_of_build h
    obtain ⟨slots, hslots, -, -⟩ := build_eq_ok h
    refine ⟨fun m hm => exists_slotOf_iff.1 (exists_mapM_eq_ok_iff.1 ⟨slots, hslots⟩ m hm),
      fun slot priority => ?_,
      fun m hm m' hm' hacc hdirect heq => ?_⟩
    · by_cases hne : groupIn ms slot priority = []
      · rw [hne]
        exact .nil
      · have hgroup : w.group slot priority = groupIn ms slot priority := by rw [group, hmappings]
        rw [← hgroup] at hne ⊢
        exact groupFault?_eq_none_iff.1 (hbuilt.noFault hne).1
    · rw [← hmappings] at hm hm'
      obtain ⟨slot, hslot, -⟩ := hbuilt.exists_slot hm'
      have hgroup : m' ∈ w.group slot m'.priority :=
        mem_group.2 ⟨hm', Mapping.not_isAccumulating_of_isDirect hdirect, hslot, rfl⟩
      exact hbuilt.not_accumulating hgroup hdirect hm hacc (heq.trans hslot)
  · intro h
    obtain ⟨slots, hslots⟩ :=
      exists_mapM_eq_ok_iff.2 fun m hm => exists_slotOf_iff.2 (h.targets m hm)
    have hfault : fault? (((slots.zip ms).filter fun p => p.2.isAccumulating).map (·.1))
        (groupAll [] (slots.zip ms)) = none := by
      refine fault?_eq_none_iff.2 fun slot target ht =>
        targetFault?_eq_none_iff.2 fun priority g hg => ?_
      obtain rfl := mem_groupAll hslots ht hg
      refine ⟨groupFault?_eq_none_iff.2 (h.groups slot priority),
        Bool.eq_false_iff.2 fun hmixed => ?_⟩
      obtain ⟨hany, hcontains⟩ := Bool.and_eq_true_iff.1 hmixed
      obtain ⟨m', hgroup, hdirect⟩ := List.any_eq_true.1 hany
      obtain ⟨hm', -, hslot', -⟩ := mem_groupIn.1 hgroup
      obtain ⟨p, hp, rfl⟩ := List.mem_map.1 (List.contains_iff_mem.1 hcontains)
      obtain ⟨hp, hacc⟩ := List.mem_filter.1 hp
      obtain ⟨hmap, hplaced⟩ := placed_spec hslots
      have hm : p.2 ∈ ms := hmap ▸ List.mem_map_of_mem hp
      exact h.appends p.2 hm m' hm' hacc hdirect ((hplaced p hp).1.trans hslot'.symm)
    refine ⟨ofTargets composition ms (groupAll [] (slots.zip ms)) (nodup_keys_groupAll [] .nil _),
      ?_⟩
    simp only [build, hslots, bind, Except.bind, hfault]

end Wiring

/-! ## Where mappings are kept -/

/-- Where mappings are kept: with those that accumulate from a call, or in the group of a slot and a
priority. -/
inductive Part where
  | accumulating (call : CallId)
  | group (slot : Slot) (priority : Option CallId)
  deriving DecidableEq, Repr

/-- Where a mapping belongs: if it appends the output of a call to those of that call, otherwise to
a group of the slot that it writes. -/
def Mapping.part? (m : Mapping) : Option Part :=
  match m.source, m.targetStrategy with
  | .call id _, some .append => some (.accumulating id)
  | _, _ => (Slot.of? m.target).map fun slot => .group slot m.priority

namespace Mapping

variable {m : Mapping}

theorem part?_of_isAccumulating (h : m.isAccumulating = true) :
    m.part? = m.sourceCall?.map .accumulating := by
  obtain ⟨⟨call, port, hsource⟩, hstrategy⟩ := isAccumulating_iff.1 h
  simp [part?, sourceCall?, hsource, hstrategy]

theorem part?_of_not_isAccumulating (h : m.isAccumulating = false) :
    m.part? = (Slot.of? m.target).map fun slot => .group slot m.priority := by
  unfold part?
  split
  · rename_i call port hsource hstrategy
    exact absurd (isAccumulating_iff.2 ⟨⟨call, port, hsource⟩, hstrategy⟩) (by simp [h])
  · rfl

theorem part?_eq_accumulating_iff {call : CallId} :
    m.part? = some (.accumulating call) ↔ m.isAccumulating = true ∧ m.sourceCall? = some call := by
  cases hacc : m.isAccumulating with
  | true => simp [part?_of_isAccumulating hacc]
  | false => simp [part?_of_not_isAccumulating hacc]

theorem part?_eq_group_iff {slot : Slot} {priority : Option CallId} :
    m.part? = some (.group slot priority) ↔
      m.isAccumulating = false ∧ Slot.of? m.target = some slot ∧ m.priority = priority := by
  cases hacc : m.isAccumulating with
  | true => simp [part?_of_isAccumulating hacc]
  | false =>
      rw [part?_of_not_isAccumulating hacc]
      cases Slot.of? m.target <;> simp

end Mapping

namespace Wiring

/-- What is kept in a place. -/
def kept (w : Wiring) : Part → List Mapping
  | .accumulating call => w.accumulatingFrom call
  | .group slot priority => collected w.targets slot priority

/-- How the mappings of a composition are kept, and what is looked up in them. -/
structure Partitions (w : Wiring) (ms : List Mapping) : Prop where
  /-- Every mapping has a place. -/
  placed : ∀ m ∈ ms, ∃ part, m.part? = some part
  /-- Each place keeps, in order of declaration, the mappings that belong there, and no others. -/
  kept : ∀ part, w.kept part = ms.filter fun m => decide (m.part? = some part)
  /-- No slot and no priority is kept twice. -/
  tidy : Tidy w.targets
  /-- The slots of a call into which mappings go that do not accumulate. -/
  inputs : ∀ call, (w.inputSlots call).Nodup ∧ ∀ slot, slot ∈ w.inputSlots call ↔
    ∃ port, slot = .call call port ∧ ∃ m ∈ ms, m.target = .call call port ∧ m.isAccumulating = false
  /-- The variables into which the outputs of a call go, but for those that are appended. -/
  fed : ∀ call, (w.fedBy call).Nodup ∧ ∀ name, name ∈ w.fedBy call ↔
    ∃ m ∈ ms, m.target = .variable name ∧ (∃ port, m.source = .call call port) ∧
      m.targetStrategy ≠ some .append
  /-- The variables into which a variable goes. -/
  read : ∀ source, (w.readers source).Nodup ∧ ∀ name, name ∈ w.readers source ↔
    ∃ m ∈ ms, m.target = .variable name ∧ m.source = .variable source

variable {w : Wiring} {composition : CompositionId} {ms : List Mapping}

theorem nodup_writtenVariables (w : Wiring) : w.writtenVariables.Nodup := by
  refine w.once.filterMap fun slot slot' name hname hname' => ?_
  have hslot : slot = .variable name := by cases slot <;> simp_all
  have hslot' : slot' = .variable name := by cases slot' <;> simp_all
  exact hslot.trans hslot'.symm

theorem nodup_variablesWith (w : Wiring) (test : Mapping → Bool) : (w.variablesWith test).Nodup :=
  w.nodup_writtenVariables.sublist (w.sublist_variablesWith test)

namespace Built

/-- The slots with groups are those into which mappings go that do not accumulate. -/
theorem mem_keys_iff (h : w.Built) {slot : Slot} :
    slot ∈ Assoc.keys w.targets ↔
      ∃ m ∈ w.mappings, Slot.of? m.target = some slot ∧ m.isAccumulating = false := by
  constructor
  · intro hslot
    obtain ⟨t, ht⟩ := Option.isSome_iff_exists.1 (Assoc.isSome_find?_iff.2 hslot)
    obtain ⟨priority, hne⟩ := h.exists_group ht
    obtain ⟨m, hm⟩ := List.exists_mem_of_ne_nil _ hne
    obtain ⟨hmem, hacc, htarget, -⟩ := mem_group.1 hm
    exact ⟨m, hmem, htarget, hacc⟩
  · rintro ⟨m, hm, htarget, hacc⟩
    refine Assoc.isSome_find?_iff.1 (Option.isSome_iff_ne_none.2 fun hnone => ?_)
    have hgroup : m ∈ w.group slot m.priority := mem_group.2 ⟨hm, hacc, htarget, rfl⟩
    rw [(h.find?_eq_none_iff slot).1 hnone] at hgroup
    exact absurd hgroup (by simp)

/-- The variables with a mapping that passes a test, appends of outputs apart. -/
theorem mem_variablesWith_iff (h : w.Built) {test : Mapping → Bool} {name : String} :
    name ∈ w.variablesWith test ↔
      ∃ m ∈ w.mappings, m.target = .variable name ∧ m.isAccumulating = false ∧ test m = true := by
  rw [h.mem_variablesWith]
  constructor
  · rintro ⟨priority, m, hm, htest⟩
    obtain ⟨hmem, hacc, htarget, -⟩ := mem_group.1 hm
    exact ⟨m, hmem, Slot.of?_eq_variable_iff.1 htarget, hacc, htest⟩
  · rintro ⟨m, hm, htarget, hacc, htest⟩
    exact ⟨m.priority, m, mem_group.2 ⟨hm, hacc, Slot.of?_eq_variable_iff.2 htarget, rfl⟩, htest⟩

end Built

/-- **The mappings of an accepted composition are partitioned.** -/
theorem partitions_of_build (h : build composition ms = .ok w) : w.Partitions ms := by
  have hbuilt := built_of_build h
  obtain rfl := mappings_of_build h
  have hreset := reset_of_build h
  refine ⟨fun m hm => ?_, fun part => ?_, hbuilt.tidy, fun call => ?_, fun call => ?_,
    fun source => ?_⟩
  · cases hacc : m.isAccumulating with
    | true =>
        obtain ⟨⟨call, port, hsource⟩, -⟩ := Mapping.isAccumulating_iff.1 hacc
        exact ⟨.accumulating call,
          Mapping.part?_eq_accumulating_iff.2 ⟨hacc, by simp [Mapping.sourceCall?, hsource]⟩⟩
    | false =>
        obtain ⟨slot, hslot, -⟩ := hbuilt.exists_slot hm
        exact ⟨.group slot m.priority, Mapping.part?_eq_group_iff.2 ⟨hacc, hslot, rfl⟩⟩
  · cases part with
    | accumulating call =>
        refine (accumulatingFrom_eq w call).trans (List.filter_congr fun m _ => ?_)
        rw [Bool.eq_iff_iff, decide_eq_true_iff, Mapping.part?_eq_accumulating_iff]
        simp
    | group slot priority =>
        have hcollected := hbuilt.collected_reset slot priority
        rw [hreset] at hcollected
        refine hcollected.trans (List.filter_congr fun m _ => ?_)
        rw [Bool.eq_iff_iff, decide_eq_true_iff, Mapping.part?_eq_group_iff]
        simp [and_assoc]
  · rw [inputSlots_eq]
    refine ⟨w.once.filter _, fun slot => ?_⟩
    rw [List.mem_filter, hbuilt.mem_keys_iff]
    cases slot with
    | call id port =>
        simp only [Slot.isOf, beq_iff_eq, Slot.of?_eq_call_iff]
        constructor
        · rintro ⟨hm, rfl⟩
          exact ⟨port, rfl, hm⟩
        · rintro ⟨port', heq, hm⟩
          obtain ⟨rfl, rfl⟩ := Slot.call.inj heq
          exact ⟨hm, rfl⟩
    | boundary port => simp [Slot.isOf]
    | «variable» name => simp [Slot.isOf]
  · rw [fedBy_eq]
    refine ⟨w.nodup_variablesWith _, fun name => ?_⟩
    rw [hbuilt.mem_variablesWith_iff]
    refine exists_congr fun m => and_congr_right fun _ => and_congr_right fun _ => ?_
    rw [beq_iff_eq, Mapping.sourceCall?_eq_some_iff]
    constructor
    · rintro ⟨hacc, port, hsource⟩
      refine ⟨⟨port, hsource⟩, fun happend => ?_⟩
      exact absurd (Mapping.isAccumulating_iff.2 ⟨⟨call, port, hsource⟩, happend⟩) (by simp [hacc])
    · rintro ⟨⟨port, hsource⟩, hne⟩
      refine ⟨Bool.eq_false_iff.2 fun hacc => hne (Mapping.isAccumulating_iff.1 hacc).2,
        port, hsource⟩
  · rw [readers_eq]
    refine ⟨w.nodup_variablesWith _, fun name => ?_⟩
    rw [hbuilt.mem_variablesWith_iff]
    refine exists_congr fun m => and_congr_right fun _ => and_congr_right fun _ => ?_
    rw [Mapping.readsVariable_iff]
    refine and_iff_right_of_imp fun hsource => Bool.eq_false_iff.2 fun hacc => ?_
    obtain ⟨⟨call, port, hcall⟩, -⟩ := Mapping.isAccumulating_iff.1 hacc
    exact absurd (hsource.symm.trans hcall) (by simp)

/-- **Grouping partitions the mappings of a composition.**  Whether they are accepted does not
depend on their order, and if they are, each is kept in one place. -/
theorem build_partitions (composition : CompositionId) (ms : List Mapping) :
    ((∃ w, build composition ms = .ok w) ↔ Acceptable ms) ∧
    (∀ ms' : List Mapping,
      ms'.Perm ms → ((∃ w, build composition ms' = .ok w) ↔ ∃ w, build composition ms = .ok w)) ∧
    ∀ w, build composition ms = .ok w → w.Partitions ms := by
  refine ⟨exists_build_iff, fun ms' hperm => ?_, fun w => partitions_of_build⟩
  rw [exists_build_iff, exists_build_iff]
  exact ⟨.perm hperm.symm, .perm hperm⟩

end Wiring

end CallFlow
