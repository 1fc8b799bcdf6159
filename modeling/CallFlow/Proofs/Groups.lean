import CallFlow.Proofs.Except
import CallFlow.Proofs.Lookups

/-!
# Groups of mappings

The groups of a wiring are given twice: as `build` collects them, and by the mappings that belong
to them (`Wiring.group`).  This file shows that both are the same (`Wiring.Built.find?_group`),
and that a group with a direct mapping has no other and that nothing accumulates beside it
(`Wiring.Built.group_eq_singleton`, `Wiring.Built.not_accumulating`).
-/

namespace CallFlow

namespace Slot

variable {e : Endpoint}

theorem of?_eq_call_iff {call : CallId} {port : Port} :
    of? e = some (.call call port) ↔ e = .call call port := by
  cases e <;> simp [of?]

theorem of?_eq_variable_iff {name : String} :
    of? e = some (.variable name) ↔ e = .variable name := by
  cases e <;> simp [of?]

end Slot

namespace Wiring

/-- The mappings into a slot with a priority, those that accumulate apart. -/
def groupIn (ms : List Mapping) (slot : Slot) (priority : Option CallId) : List Mapping :=
  ms.filter fun m => !m.isAccumulating && Slot.of? m.target == some slot && m.priority == priority

/-- The group of a slot with a priority. -/
def group (w : Wiring) (slot : Slot) (priority : Option CallId) : List Mapping :=
  groupIn w.mappings slot priority

theorem mem_groupIn {ms : List Mapping} {slot : Slot} {priority : Option CallId} {m : Mapping} :
    m ∈ groupIn ms slot priority ↔ m ∈ ms ∧ m.isAccumulating = false ∧
      Slot.of? m.target = some slot ∧ m.priority = priority := by
  simp [groupIn, and_assoc]

theorem mem_group {w : Wiring} {slot : Slot} {priority : Option CallId} {m : Mapping} :
    m ∈ w.group slot priority ↔ m ∈ w.mappings ∧ m.isAccumulating = false ∧
      Slot.of? m.target = some slot ∧ m.priority = priority :=
  mem_groupIn

/-- Do mappings write the slot? -/
def Writes (w : Wiring) (slot : Slot) : Prop :=
  Assoc.contains w.targets slot = true ∨ ∃ m ∈ w.mappings, Slot.of? m.target = some slot

theorem writes_congr {w w' : Wiring} (h : w'.reset = w.reset) (slot : Slot) :
    w'.Writes slot ↔ w.Writes slot := by
  have htargets : w'.reset.targets = w.reset.targets := by rw [h]
  have hmappings : w'.reset.mappings = w.reset.mappings := by rw [h]
  change w'.mappings = w.mappings at hmappings
  have hfind := congrArg (fun m => (Assoc.find? m slot).isSome) htargets
  simp only [targets_reset, Assoc.find?_mapValues, Option.isSome_map] at hfind
  rw [Writes, Writes, hmappings, Assoc.contains, Assoc.contains, hfind]

/-- The wiring is what `build` makes of its mappings, but for authority. -/
def Built (w : Wiring) : Prop := build w.composition w.mappings = .ok w.reset

/-! ## Collecting groups -/

/-- A group that is collected for a slot; nothing if there is none. -/
def collected (targets : Assoc Slot Target) (slot : Slot) (priority : Option CallId) :
    List Mapping :=
  ((Assoc.find? targets slot).bind fun t => Assoc.find? t.groups priority).getD []

theorem collected_addTarget (targets : Assoc Slot Target) (slot slot' : Slot) (m : Mapping)
    (priority : Option CallId) :
    collected (addTarget targets slot m) slot' priority
      = collected targets slot' priority
        ++ if slot = slot' ∧ m.priority = priority then [m] else [] := by
  unfold collected addTarget
  rw [Assoc.find?_insert]
  by_cases hslot : slot = slot'
  · subst hslot
    by_cases hpriority : m.priority = priority
    · subst hpriority
      cases Assoc.find? targets slot with
      | none => simp [Target.add, Assoc.find?_insert]
      | some t => simp [Target.add, Assoc.find?_insert]
    · cases Assoc.find? targets slot with
      | none => simp [Target.add, Assoc.find?_insert, hpriority]
      | some t => simp [Target.add, Assoc.find?_insert, hpriority]
  · simp [hslot]

theorem collected_groupAll (targets : Assoc Slot Target) (placed : List (Slot × Mapping))
    (slot : Slot) (priority : Option CallId) :
    collected (groupAll targets placed) slot priority
      = collected targets slot priority ++ (placed.filter fun p =>
          !p.2.isAccumulating && p.1 == slot && p.2.priority == priority).map (·.2) := by
  induction placed generalizing targets with
  | nil => simp [groupAll]
  | cons p rest ih =>
      obtain ⟨slot', m⟩ := p
      rw [groupAll, ih]
      by_cases hacc : m.isAccumulating = true
      · simp [hacc]
      · by_cases hin : slot' = slot ∧ m.priority = priority
        · simp [hacc, collected_addTarget, hin]
        · have hfilter : (slot' == slot && m.priority == priority) = false := by
            simpa using hin
          simp [hacc, collected_addTarget, hin, hfilter]

/-- No group that is kept is empty, and no target is without groups. -/
def Filled (targets : Assoc Slot Target) : Prop :=
  ∀ slot t, Assoc.find? targets slot = some t →
    (∀ priority g, Assoc.find? t.groups priority = some g → g ≠ []) ∧
      ∃ priority g, Assoc.find? t.groups priority = some g

theorem filled_addTarget {targets : Assoc Slot Target} (h : Filled targets) (slot : Slot)
    (m : Mapping) : Filled (addTarget targets slot m) := by
  intro slot' t ht
  unfold addTarget at ht
  rw [Assoc.find?_insert] at ht
  split at ht
  · rename_i hslot
    obtain rfl := Option.some.inj ht
    have hold : ∀ priority g, Assoc.find? ((Assoc.find? targets slot).getD { groups := [] }).groups
        priority = some g → g ≠ [] := by
      cases hfind : Assoc.find? targets slot with
      | none => simp
      | some t => exact (h slot t hfind).1
    refine ⟨fun priority g hg => ?_, m.priority, _, Assoc.find?_insert_self ..⟩
    · simp only [Target.add, Assoc.find?_insert] at hg
      split at hg
      · obtain rfl := Option.some.inj hg
        simp
      · exact hold priority g hg
  · exact h slot' t ht

theorem filled_groupAll {targets : Assoc Slot Target} (h : Filled targets)
    (placed : List (Slot × Mapping)) : Filled (groupAll targets placed) := by
  induction placed generalizing targets with
  | nil => exact h
  | cons p rest ih =>
      obtain ⟨slot, m⟩ := p
      rw [groupAll]
      split
      · exact ih h
      · exact ih (filled_addTarget h slot m)

theorem authority_groupAll {targets : Assoc Slot Target}
    (h : ∀ entry ∈ targets, entry.2.authority = none) (placed : List (Slot × Mapping)) :
    ∀ entry ∈ groupAll targets placed, entry.2.authority = none := by
  induction placed generalizing targets with
  | nil => exact h
  | cons p rest ih =>
      obtain ⟨slot, m⟩ := p
      rw [groupAll]
      split
      · exact ih h
      · apply ih
        intro entry hentry
        rcases Assoc.mem_insert hentry with rfl | hentry
        · cases hfind : Assoc.find? targets slot with
          | none => rfl
          | some t => exact h (slot, t) (Assoc.mem_of_find?_eq_some hfind)
        · exact h entry hentry

/-- No slot and no priority is kept twice. -/
def Tidy (targets : Assoc Slot Target) : Prop :=
  (Assoc.keys targets).Nodup ∧ ∀ slot t, (slot, t) ∈ targets → (Assoc.keys t.groups).Nodup

theorem tidy_addTarget {targets : Assoc Slot Target} (h : Tidy targets) (slot : Slot)
    (m : Mapping) :
    Tidy (addTarget targets slot m) := by
  refine ⟨Assoc.nodup_keys_insert h.1 _ _, ?_⟩
  intro slot' t ht
  rcases Assoc.mem_insert ht with heq | ht
  · obtain ⟨rfl, rfl⟩ := Prod.mk.inj heq
    refine Assoc.nodup_keys_insert ?_ _ _
    cases hfind : Assoc.find? targets slot' with
    | none => exact List.nodup_nil
    | some t => exact h.2 slot' t (Assoc.mem_of_find?_eq_some hfind)
  · exact h.2 slot' t ht

theorem tidy_groupAll {targets : Assoc Slot Target} (h : Tidy targets)
    (placed : List (Slot × Mapping)) : Tidy (groupAll targets placed) := by
  induction placed generalizing targets with
  | nil => exact h
  | cons p rest ih =>
      obtain ⟨slot, m⟩ := p
      rw [groupAll]
      split
      · exact ih h
      · exact ih (tidy_addTarget h slot m)

theorem slotOf_eq_ok_iff {m : Mapping} {slot : Slot} :
    slotOf m = .ok slot ↔ Slot.of? m.target = some slot ∧ slot.isInput = true := by
  unfold slotOf
  cases Slot.of? m.target with
  | none => simp
  | some slot' =>
      by_cases hinput : slot'.isInput = true
      · simp only [hinput, if_true, Except.ok.injEq, Option.some.injEq]
        exact ⟨fun h => ⟨h, h ▸ hinput⟩, And.left⟩
      · simp only [hinput, Bool.false_eq_true, if_false, reduceCtorEq, Option.some.injEq, false_iff]
        rintro ⟨rfl, hinput'⟩
        exact hinput hinput'

/-- Placing mappings loses none, and places each at the slot that it writes. -/
theorem placed_spec {ms : List Mapping} {slots : List Slot} (h : ms.mapM slotOf = .ok slots) :
    (slots.zip ms).map (·.2) = ms ∧
      ∀ p ∈ slots.zip ms, Slot.of? p.2.target = some p.1 ∧ p.1.isInput = true := by
  induction ms generalizing slots with
  | nil =>
      cases h
      simp
  | cons m rest ih =>
      rw [List.mapM_cons] at h
      obtain ⟨slot, hslot, h⟩ := bind_eq_ok h
      obtain ⟨others, hrest, h⟩ := bind_eq_ok h
      obtain rfl := Except.ok.inj h
      obtain ⟨hmap, hmem⟩ := ih hrest
      refine ⟨by simp [hmap], ?_⟩
      intro p hp
      rcases List.mem_cons.1 hp with rfl | hp
      · exact slotOf_eq_ok_iff.1 hslot
      · exact hmem p hp

/-- What is collected from mappings that are placed. -/
theorem collected_placed {ms : List Mapping} {slots : List Slot}
    (h : ms.mapM slotOf = .ok slots) (slot : Slot)
    (priority : Option CallId) :
    collected (groupAll [] (slots.zip ms)) slot priority = groupIn ms slot priority := by
  obtain ⟨hmap, hmem⟩ := placed_spec h
  have hplaced :
      (slots.zip ms).filter
        (fun p => !p.2.isAccumulating && p.1 == slot && p.2.priority == priority)
      = (slots.zip ms).filter (fun p =>
        !p.2.isAccumulating && Slot.of? p.2.target == some slot && p.2.priority == priority) := by
    apply List.filter_congr
    intro p hp
    rw [(hmem p hp).1]
    simp
  calc collected (groupAll [] (slots.zip ms)) slot priority
      = ((slots.zip ms).filter (fun p => !p.2.isAccumulating &&
          Slot.of? p.2.target == some slot && p.2.priority == priority)).map (·.2) := by
        rw [collected_groupAll, hplaced]
        simp [collected]
    _ = groupIn ((slots.zip ms).map (·.2)) slot priority := by
        rw [groupIn, List.filter_map]
        rfl
    _ = groupIn ms slot priority := by rw [hmap]

/-- Groups that are collected are kept once, and are those of the mappings. -/
theorem mem_groupAll {ms : List Mapping} {slots : List Slot}
    (h : ms.mapM slotOf = .ok slots) {slot : Slot}
    {target : Target} (ht : (slot, target) ∈ groupAll [] (slots.zip ms)) {priority : Option CallId}
    {g : List Mapping}
    (hg : (priority, g) ∈ target.groups) : g = groupIn ms slot priority := by
  have htidy : Tidy (groupAll [] (slots.zip ms)) :=
    tidy_groupAll ⟨by simp [Assoc.keys], fun _ _ ht => absurd ht (by simp)⟩ _
  rw [← collected_placed h, collected, Assoc.find?_of_mem htidy.1 ht, Option.bind_some,
    Assoc.find?_of_mem (htidy.2 slot target ht) hg, Option.getD_some]

/-- What `build` has made, and that it has found no fault. -/
theorem build_eq_ok {composition : CompositionId} {ms : List Mapping} {w : Wiring}
    (h : build composition ms = .ok w) :
    ∃ slots, ms.mapM slotOf = .ok slots ∧
      w = ofTargets composition ms (groupAll [] (slots.zip ms)) (nodup_keys_groupAll [] .nil _) ∧
      fault? (((slots.zip ms).filter fun p => p.2.isAccumulating).map (·.1))
        (groupAll [] (slots.zip ms)) = none := by
  unfold build at h
  obtain ⟨slots, hslots, h⟩ := bind_eq_ok h
  simp only [] at h
  split at h
  · exact absurd h (by simp)
  · rename_i hfault
    exact ⟨slots, hslots, (Except.ok.inj h).symm, hfault⟩

theorem mappings_of_build {composition : CompositionId} {ms : List Mapping} {w : Wiring}
    (h : build composition ms = .ok w) : w.mappings = ms := by
  obtain ⟨slots, -, rfl, -⟩ := build_eq_ok h
  rfl

/-- A wiring that was built is without authority. -/
theorem authority_of_build {composition : CompositionId} {ms : List Mapping} {w : Wiring}
    (h : build composition ms = .ok w) {slot : Slot} {t : Target}
    (ht : (slot, t) ∈ w.targets) : t.authority = none := by
  obtain ⟨slots, -, rfl, -⟩ := build_eq_ok h
  exact authority_groupAll (fun _ hmem => absurd hmem (by simp)) _ _ ht

theorem reset_of_build {composition : CompositionId} {ms : List Mapping} {w : Wiring}
    (h : build composition ms = .ok w) : w.reset = w := by
  refine eq_of_targets rfl rfl (Assoc.mapValues_eq_self fun slot t ht => ?_)
  have hnone := authority_of_build h ht
  cases t
  simp_all

theorem built_of_build {composition : CompositionId} {ms : List Mapping} {w : Wiring}
    (h : build composition ms = .ok w) : w.Built := by
  rw [Built, reset_of_build h, mappings_of_build h]
  obtain ⟨slots, -, rfl, -⟩ := build_eq_ok h
  exact h

namespace Built

variable {w : Wiring}

theorem exists_slots (h : w.Built) :
    ∃ slots, w.mappings.mapM slotOf = .ok slots ∧
      w.reset.targets = groupAll [] (slots.zip w.mappings) ∧
      fault? (((slots.zip w.mappings).filter fun p => p.2.isAccumulating).map (·.1))
        w.reset.targets = none := by
  obtain ⟨slots, hslots, hw, hfault⟩ := build_eq_ok h
  have htargets : w.reset.targets = groupAll [] (slots.zip w.mappings) := congrArg Wiring.targets hw
  exact ⟨slots, hslots, htargets, htargets ▸ hfault⟩

/-- Every mapping writes a slot that mappings can write. -/
theorem exists_slot (h : w.Built) {m : Mapping} (hm : m ∈ w.mappings) :
    ∃ slot, Slot.of? m.target = some slot ∧ slot.isInput = true := by
  obtain ⟨slots, hslots, -⟩ := h.exists_slots
  obtain ⟨hmap, hplaced⟩ := placed_spec hslots
  rw [← hmap] at hm
  obtain ⟨p, hp, rfl⟩ := List.mem_map.1 hm
  exact ⟨p.1, hplaced p hp⟩

theorem tidy (h : w.Built) : Tidy w.targets := by
  obtain ⟨slots, -, htargets, -⟩ := h.exists_slots
  have hreset : Tidy w.reset.targets := by
    rw [htargets]
    exact tidy_groupAll ⟨by simp [Assoc.keys], fun _ _ ht => absurd ht (by simp)⟩ _
  have hkeys : Assoc.keys w.reset.targets = Assoc.keys w.targets := Assoc.keys_mapValues ..
  rw [Tidy, hkeys] at hreset
  refine ⟨hreset.1, ?_⟩
  intro slot t ht
  have hfind : Assoc.find? w.reset.targets slot = some { t with authority := none } := by
    simp [Assoc.find?_of_mem hreset.1 ht]
  have hgroups := hreset.2 slot _ (Assoc.mem_of_find?_eq_some hfind)
  exact hgroups

theorem filled (h : w.Built) : Filled w.reset.targets := by
  obtain ⟨slots, -, htargets, -⟩ := h.exists_slots
  rw [htargets]
  exact filled_groupAll (fun _ _ hfind => absurd hfind (by simp)) _

theorem collected_reset (h : w.Built) (slot : Slot) (priority : Option CallId) :
    collected w.reset.targets slot priority = w.group slot priority := by
  obtain ⟨slots, hslots, htargets, -⟩ := h.exists_slots
  rw [htargets, collected_placed hslots, group]

theorem find?_reset (w : Wiring) (slot : Slot) :
    Assoc.find? w.reset.targets slot
      = (Assoc.find? w.targets slot).map fun t => { t with authority := none } := by
  simp

/-- **A group is kept where mappings belong to it, and it is made of those.** -/
theorem find?_group (h : w.Built) (slot : Slot) (priority : Option CallId) :
    ((Assoc.find? w.targets slot).bind fun t => Assoc.find? t.groups priority)
      = if w.group slot priority = [] then none else some (w.group slot priority) := by
  have hcollected := h.collected_reset slot priority
  rw [collected, find?_reset] at hcollected
  cases ht : Assoc.find? w.targets slot with
  | none =>
      simp only [ht, Option.map_none, Option.bind_none, Option.getD_none] at hcollected
      simp [← hcollected]
  | some t =>
      have hfilled := (h.filled slot { t with authority := none } (by simp [ht])).1 priority
      simp only [ht, Option.map_some, Option.bind_some] at hcollected ⊢
      cases hg : Assoc.find? t.groups priority with
      | none =>
          simp only [hg, Option.getD_none] at hcollected
          simp [← hcollected]
      | some g =>
          simp only [hg, Option.getD_some] at hcollected
          rw [← hcollected, if_neg (hfilled g hg)]

/-- A slot that has a target has a group. -/
theorem exists_group (h : w.Built) {slot : Slot} {t : Target}
    (ht : Assoc.find? w.targets slot = some t) : ∃ priority, w.group slot priority ≠ [] := by
  obtain ⟨priority, g, hg⟩ :=
    (h.filled slot { t with authority := none } (by simp [ht])).2
  refine ⟨priority, ?_⟩
  intro hnil
  have hgroup := h.find?_group slot priority
  rw [ht, Option.bind_some, if_pos hnil] at hgroup
  exact absurd (hgroup.symm.trans hg) (by simp)

/-- A slot has a target where mappings belong to some group of it. -/
theorem find?_eq_none_iff (h : w.Built) (slot : Slot) :
    Assoc.find? w.targets slot = none ↔ ∀ priority, w.group slot priority = [] := by
  constructor
  · intro hnone priority
    have hgroup := h.find?_group slot priority
    rw [hnone, Option.bind_none] at hgroup
    split at hgroup
    · assumption
    · exact absurd hgroup (by simp)
  · intro hempty
    cases ht : Assoc.find? w.targets slot with
    | none => rfl
    | some t =>
        obtain ⟨priority, hne⟩ := h.exists_group ht
        exact absurd (hempty priority) hne

/-- The mappings of a target are those of all groups of its slot. -/
theorem mem_mappings_iff (h : w.Built) {slot : Slot} {t : Target} (ht : (slot, t) ∈ w.targets)
    (m : Mapping) : m ∈ t.mappings ↔ ∃ priority, m ∈ w.group slot priority := by
  have hfind := Assoc.find?_of_mem h.tidy.1 ht
  have hgroup := fun priority => h.find?_group slot priority
  simp only [hfind, Option.bind_some] at hgroup
  constructor
  · intro hm
    obtain ⟨g, hg, hmg⟩ := List.mem_flatten.1 hm
    obtain ⟨⟨priority, g⟩, hentry, rfl⟩ := List.mem_map.1 hg
    refine ⟨priority, ?_⟩
    have heq := (Assoc.find?_of_mem (h.tidy.2 slot t ht) hentry).symm.trans (hgroup priority)
    split at heq
    · exact absurd heq (by simp)
    · rwa [← Option.some.inj heq]
  · rintro ⟨priority, hm⟩
    have heq := hgroup priority
    rw [if_neg (List.ne_nil_of_mem hm)] at heq
    exact List.mem_flatten.2 ⟨_, List.mem_map.2 ⟨_, Assoc.mem_of_find?_eq_some heq, rfl⟩, hm⟩

/-- The variables with a mapping that passes a test are those with a group with such a mapping. -/
theorem mem_variablesWith (h : w.Built) {test : Mapping → Bool} {name : String} :
    name ∈ w.variablesWith test ↔
      ∃ priority, ∃ m ∈ w.group (.variable name) priority, test m = true := by
  constructor
  · intro hname
    obtain ⟨⟨slot, t⟩, ht, hname⟩ := List.mem_filterMap.1 hname
    cases slot with
    | call _ _ | boundary _ => exact absurd hname (by simp [Slot.variableWith?])
    | «variable» n =>
        simp only [Slot.variableWith?, Option.ite_none_right_eq_some, Option.some.injEq] at hname
        obtain ⟨hany, rfl⟩ := hname
        obtain ⟨m, hm, htest⟩ := List.any_eq_true.1 hany
        obtain ⟨priority, hm⟩ := (h.mem_mappings_iff ht m).1 hm
        exact ⟨priority, m, hm, htest⟩
  · rintro ⟨priority, m, hm, htest⟩
    cases ht : Assoc.find? w.targets (.variable name) with
    | none =>
        rw [(h.find?_eq_none_iff _).1 ht priority] at hm
        exact absurd hm (by simp)
    | some t =>
        have hentry := Assoc.mem_of_find?_eq_some ht
        have hany : t.mappings.any test = true :=
          List.any_eq_true.2 ⟨m, (h.mem_mappings_iff hentry m).2 ⟨priority, hm⟩, htest⟩
        exact List.mem_filterMap.2 ⟨_, hentry, by simp only [Slot.variableWith?, hany, if_true]⟩

theorem mem_fedBy (h : w.Built) {call : CallId} {name : String} : name ∈ w.fedBy call ↔
    ∃ priority, ∃ m ∈ w.group (.variable name) priority, m.sourceCall? = some call := by
  simp [fedBy_eq, h.mem_variablesWith]

theorem mem_readers (h : w.Built) {source name : String} : name ∈ w.readers source ↔
    ∃ priority, ∃ m ∈ w.group (.variable name) priority, m.readsVariable source = true := by
  rw [readers_eq, h.mem_variablesWith]

/-- Every slot that mappings write is the slot of a mapping. -/
theorem exists_mapping_of_writes (h : w.Built) {slot : Slot}
    (hslot : w.Writes slot) :
    ∃ m ∈ w.mappings, Slot.of? m.target = some slot := by
  rcases hslot with hslot | hslot
  · obtain ⟨t, ht⟩ := Option.isSome_iff_exists.1 hslot
    obtain ⟨priority, hne⟩ := h.exists_group ht
    obtain ⟨m, hm⟩ := List.exists_mem_of_ne_nil _ hne
    obtain ⟨hmem, -, htarget, -⟩ := mem_group.1 hm
    exact ⟨m, hmem, htarget⟩
  · exact hslot

end Built

/-! ## Groups without conflicts -/

theorem fault?_eq_none_iff {appended : List Slot} {targets : Assoc Slot Target} :
    fault? appended targets = none ↔
      ∀ slot target, (slot, target) ∈ targets →
        targetFault? slot (appended.contains slot) target.groups = none := by
  induction targets with
  | nil => simp [fault?]
  | cons entry rest ih =>
      obtain ⟨slot, target⟩ := entry
      rw [fault?]
      cases hfault : targetFault? slot (appended.contains slot) target.groups with
      | some fault =>
          refine iff_of_false (by simp) fun h => ?_
          exact absurd (hfault.symm.trans (h slot target (List.mem_cons_self ..))) (by simp)
      | none =>
          simp only [ih, List.mem_cons]
          constructor
          · rintro h slot' target' (heq | hmem)
            · obtain ⟨rfl, rfl⟩ := Prod.mk.inj heq
              exact hfault
            · exact h slot' target' hmem
          · exact fun h slot' target' hmem => h slot' target' (.inr hmem)

theorem targetFault?_eq_none_iff {slot : Slot} {appended : Bool}
    {groups : Assoc (Option CallId) (List Mapping)} :
    targetFault? slot appended groups = none ↔
      ∀ priority g, (priority, g) ∈ groups →
        groupFault? slot priority g = none ∧ (g.any Mapping.isDirect && appended) = false := by
  induction groups with
  | nil => simp [targetFault?]
  | cons entry rest ih =>
      obtain ⟨priority, g⟩ := entry
      rw [targetFault?]
      cases hfault : groupFault? slot priority g with
      | some fault =>
          refine iff_of_false (by simp) fun h => ?_
          exact absurd (hfault.symm.trans (h priority g (List.mem_cons_self ..)).1) (by simp)
      | none =>
          cases hmixed : g.any Mapping.isDirect && appended with
          | true =>
              refine iff_of_false (by simp) fun h => ?_
              exact absurd (hmixed.symm.trans (h priority g (List.mem_cons_self ..)).2) (by simp)
          | false =>
              simp only [Bool.false_eq_true, if_false, ih, List.mem_cons]
              constructor
              · rintro h priority' g' (heq | hmem)
                · obtain ⟨rfl, rfl⟩ := Prod.mk.inj heq
                  exact ⟨hfault, hmixed⟩
                · exact h priority' g' hmem
              · exact fun h priority' g' hmem => h priority' g' (.inr hmem)

/-- No strategy is repeated in a list in which each stands once, but for appends. -/
theorem repeated?_eq_none_iff {before strategies : List Strategy} :
    repeated? before strategies = none ↔
      strategies.Pairwise (fun a b => a ≠ .append → a ≠ b) ∧
      ∀ a ∈ strategies, a ≠ .append → a ∉ before := by
  induction strategies generalizing before with
  | nil => simp [repeated?]
  | cons a rest ih =>
      rw [repeated?, List.pairwise_cons, List.forall_mem_cons]
      by_cases happend : a = .append
      · rw [if_pos happend, ih]
        simp [happend]
      · rw [if_neg happend]
        by_cases hbefore : a ∈ before
        · rw [if_pos (List.contains_iff_mem.2 hbefore)]
          simp [happend, hbefore]
        · rw [if_neg (by simpa using hbefore), ih]
          constructor
          · rintro ⟨hrest, hnew⟩
            refine ⟨⟨fun b hb _ heq => ?_, hrest⟩, fun _ => hbefore, fun b hb hne => ?_⟩
            · subst heq
              exact hnew a hb happend (List.mem_cons_self ..)
            · exact fun hmem => hnew b hb hne (List.mem_cons_of_mem _ hmem)
          · rintro ⟨⟨hfirst, hrest⟩, -, hnew⟩
            refine ⟨hrest, fun b hb hne hmem => ?_⟩
            rcases List.mem_cons.1 hmem with rfl | hmem
            · exact hfirst b hb happend rfl
            · exact hnew b hb hne hmem

/-- A direct mapping is alone in a group without faults. -/
theorem eq_singleton_of_groupFault? {slot : Slot} {priority : Option CallId} {g : List Mapping}
    (h : groupFault? slot priority g = none) {m : Mapping} (hm : m ∈ g)
    (hdirect : m.isDirect = true) :
    g = [m] := by
  have hpos : 0 < (g.filter Mapping.isDirect).length :=
    List.length_pos_of_mem (List.mem_filter.2 ⟨hm, hdirect⟩)
  unfold groupFault? at h
  simp only [] at h
  split at h
  · exact absurd h (by simp)
  · rename_i hcount
    split at h
    · exact absurd h (by simp)
    · rename_i hlength
      have hone : (g.filter Mapping.isDirect).length = 1 := by omega
      rw [hone] at hlength
      have hg : g.length = 1 := by
        have := List.length_pos_of_mem hm
        simp only [decide_true, Bool.true_and, decide_eq_true_eq] at hlength
        omega
      obtain ⟨m', rfl⟩ := List.length_eq_one_iff.1 hg
      rw [List.mem_singleton.1 hm]

namespace Built

variable {w : Wiring}

theorem noFault (h : w.Built) {slot : Slot} {priority : Option CallId}
    (hne : w.group slot priority ≠ []) :
    groupFault? slot priority (w.group slot priority) = none ∧
      ((w.group slot priority).any Mapping.isDirect = true →
        ∀ m ∈ w.mappings, m.isAccumulating = true → Slot.of? m.target ≠ some slot) := by
  obtain ⟨slots, hslots, -, hfault⟩ := h.exists_slots
  have hgroup := h.find?_group slot priority
  rw [if_neg hne] at hgroup
  obtain ⟨t, ht, hg⟩ := Option.bind_eq_some_iff.1 hgroup
  have ht' : (slot, { t with authority := none }) ∈ w.reset.targets := by
    refine Assoc.mem_of_find?_eq_some ?_
    rw [find?_reset, ht, Option.map_some]
  obtain ⟨hnone, hmixed⟩ :=
    targetFault?_eq_none_iff.1 (fault?_eq_none_iff.1 hfault _ _ ht') _ _
      (Assoc.mem_of_find?_eq_some hg)
  refine ⟨hnone, ?_⟩
  intro hdirect m hm hacc hslot
  obtain ⟨hmap, hplaced⟩ := placed_spec hslots
  have hcontains : (((slots.zip w.mappings).filter fun p => p.2.isAccumulating).map (·.1)).contains
      slot = true := by
    rw [← hmap] at hm
    obtain ⟨p, hp, rfl⟩ := List.mem_map.1 hm
    have hp1 : p.1 = slot := Option.some.inj ((hplaced p hp).1.symm.trans hslot)
    rw [List.contains_iff_mem]
    exact List.mem_map.2 ⟨p, List.mem_filter.2 ⟨hp, hacc⟩, hp1⟩
  rw [hdirect, hcontains] at hmixed
  exact absurd hmixed (by simp)

/-- **A direct mapping is the only one of its group.** -/
theorem group_eq_singleton (h : w.Built) {slot : Slot} {priority : Option CallId} {m : Mapping}
    (hm : m ∈ w.group slot priority) (hdirect : m.isDirect = true) : w.group slot priority = [m] :=
  eq_singleton_of_groupFault? (h.noFault (List.ne_nil_of_mem hm)).1 hm hdirect

/-- Nothing accumulates in a slot that a mapping of some group writes directly. -/
theorem not_accumulating (h : w.Built) {slot : Slot} {priority : Option CallId} {m : Mapping}
    (hm : m ∈ w.group slot priority) (hdirect : m.isDirect = true) {m' : Mapping}
    (hm' : m' ∈ w.mappings) (hacc : m'.isAccumulating = true) : Slot.of? m'.target ≠ some slot :=
  (h.noFault (List.ne_nil_of_mem hm)).2 (List.any_eq_true.2 ⟨m, hm, hdirect⟩) m' hm' hacc

end Built

end Wiring

end CallFlow
