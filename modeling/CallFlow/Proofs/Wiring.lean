import CallFlow.Proofs.Groups

/-!
# Authority

Which group is authoritative after any sequence of completions: that of the last call that keys a
group of the slot (`Wiring.Built.authority?_completeAll`).  The completion of a call changes
nothing else of a wiring.
-/

namespace CallFlow

namespace Wiring

/-- The priority of the authoritative group of a slot, if groups write the slot. -/
def authority? (w : Wiring) (slot : Slot) : Option (Option CallId) :=
  (Assoc.find? w.targets slot).map Target.authority

/-- Does the call key a group of the slot? -/
def keyedBy (w : Wiring) (slot : Slot) (call : CallId) : Bool := !(w.group slot (some call)).isEmpty

/-- The wiring after calls have completed, the last of which stands first. -/
def completeAll (w : Wiring) (completed : List CallId) : Wiring :=
  completed.foldr (fun call w => w.complete call) w

/-- The last of the completed calls that keys a group of the slot. -/
def lastKey? (w : Wiring) (slot : Slot) (completed : List CallId) : Option CallId :=
  completed.find? (w.keyedBy slot)

theorem current?_of_authoritative {w : Wiring} {slot : Slot} {group : List Mapping}
    (h : w.authoritative slot = .ok (some group)) : w.current? slot = some group := by
  unfold authoritative at h
  split at h
  · exact absurd h (by simp)
  · rename_i target htarget
    split at h
    · rename_i group' hgroup
      simp only [Except.ok.injEq, Option.some.injEq] at h
      simp [current?, htarget, hgroup, h]
    · exact absurd h (by simp)

theorem authoritative_of_current? {w : Wiring} {slot : Slot} {group : List Mapping}
    (h : w.current? slot = some group) : w.authoritative slot = .ok (some group) := by
  obtain ⟨target, htarget, hgroup⟩ := Option.bind_eq_some_iff.1 h
  simp [authoritative, htarget, hgroup]

theorem writes_of_current? {w : Wiring} {slot : Slot} {group : List Mapping}
    (h : w.current? slot = some group) : w.Writes slot := by
  obtain ⟨target, htarget, -⟩ := Option.bind_eq_some_iff.1 h
  exact .inl (by simp [Assoc.contains, htarget])

theorem reset_complete (w : Wiring) (call : CallId) : (w.complete call).reset = w.reset := by
  have htargets : (fun t : Target => { (if Assoc.contains t.groups (some call) then
      { t with authority := some call } else t) with authority := none })
      = fun t => { t with authority := none } := by
    funext t
    split <;> rfl
  refine eq_of_targets rfl rfl ?_
  rw [targets_reset, targets_complete, Assoc.mapValues_mapValues, htargets, targets_reset]

/-- The groups of a wiring are those of its targets, whichever of them is authoritative. -/
@[simp] theorem fedBy_complete (w : Wiring) (call id : CallId) :
    (w.complete call).fedBy id = w.fedBy id := rfl

@[simp] theorem readers_complete (w : Wiring) (call : CallId) (name : String) :
    (w.complete call).readers name = w.readers name := rfl

theorem mappings_completeAll (w : Wiring) (completed : List CallId) :
    (w.completeAll completed).mappings = w.mappings := by
  induction completed with
  | nil => rfl
  | cons call rest ih => exact ih

theorem reset_completeAll (w : Wiring) (completed : List CallId) :
    (w.completeAll completed).reset = w.reset := by
  induction completed with
  | nil => rfl
  | cons call rest ih => exact (reset_complete _ call).trans ih

theorem group_eq_of_mappings {w w' : Wiring} (h : w'.mappings = w.mappings) (slot : Slot)
    (priority : Option CallId) : w'.group slot priority = w.group slot priority := by
  rw [group, group, h]

namespace Built

variable {w : Wiring}

theorem of_reset_eq {w' : Wiring} (h : w.Built) (hreset : w'.reset = w.reset) : w'.Built := by
  have hcomposition : w'.reset.composition = w.reset.composition := by rw [hreset]
  have hmappings : w'.reset.mappings = w.reset.mappings := by rw [hreset]
  change build w'.reset.composition w'.reset.mappings = _
  rw [hcomposition, hmappings, hreset]
  exact h

theorem contains_groups (h : w.Built) {slot : Slot} {t : Target}
    (ht : Assoc.find? w.targets slot = some t) (call : CallId) :
    Assoc.contains t.groups (some call) = w.keyedBy slot call := by
  have hgroup := h.find?_group slot (some call)
  rw [ht, Option.bind_some] at hgroup
  rw [Assoc.contains, hgroup, keyedBy]
  split
  · rename_i hempty
    simp [hempty]
  · rename_i hne
    simp [hne]

theorem authority?_complete (h : w.Built) (call : CallId) (slot : Slot) :
    (w.complete call).authority? slot
      = (w.authority? slot).map fun a => if w.keyedBy slot call then some call else a := by
  cases ht : Assoc.find? w.targets slot with
  | none => simp [authority?, ht]
  | some t =>
      simp only [authority?, targets_complete, Assoc.find?_mapValues, ht, Option.map_some,
        h.contains_groups ht call]
      split <;> rfl

/-- **The authority of a slot is the last completed call that keys a group of it**, or what it was
before if there is none. -/
theorem authority?_completeAll (h : w.Built) (completed : List CallId) (slot : Slot) :
    (w.completeAll completed).authority? slot
      = (w.authority? slot).map fun a => (w.lastKey? slot completed).or a := by
  induction completed with
  | nil => simp [completeAll, lastKey?]
  | cons call rest ih =>
      have hbuilt : (w.completeAll rest).Built := h.of_reset_eq (w.reset_completeAll rest)
      have hkeyed : (w.completeAll rest).keyedBy slot call = w.keyedBy slot call := by
        rw [keyedBy, group_eq_of_mappings (w.mappings_completeAll rest), keyedBy]
      rw [completeAll, List.foldr_cons, ← completeAll, hbuilt.authority?_complete, ih, hkeyed,
        Option.map_map]
      congr 1
      funext a
      cases hk : w.keyedBy slot call <;> simp [lastKey?, hk]

theorem current?_eq (h : w.Built) (slot : Slot) :
    w.current? slot = (w.authority? slot).bind fun a =>
      if w.group slot a = [] then none else some (w.group slot a) := by
  cases ht : Assoc.find? w.targets slot with
  | none => simp [current?, authority?, ht]
  | some t =>
      have hgroup := h.find?_group slot t.authority
      rw [ht, Option.bind_some] at hgroup
      simpa [current?, authority?, ht, Target.current?] using hgroup

/-- When a call completes, a direct mapping with its priority becomes the authoritative group. -/
theorem current?_complete (h : w.Built) {slot : Slot} {call : CallId} {m : Mapping}
    (hm : m ∈ w.group slot (some call)) (hdirect : m.isDirect = true) :
    (w.complete call).current? slot = some [m] := by
  have hbuilt : (w.complete call).Built := h.of_reset_eq (w.reset_complete call)
  have hgroup : (w.complete call).group slot (some call) = [m] := by
    rw [group_eq_of_mappings (show (w.complete call).mappings = w.mappings from rfl)]
    exact h.group_eq_singleton hm hdirect
  have hkeyed : w.keyedBy slot call = true := by simp [keyedBy, List.ne_nil_of_mem hm]
  cases ht : w.authority? slot with
  | none =>
      have hnone : Assoc.find? w.targets slot = none := Option.map_eq_none_iff.1 ht
      rw [(h.find?_eq_none_iff slot).1 hnone] at hm
      exact absurd hm (by simp)
  | some a =>
      rw [hbuilt.current?_eq, h.authority?_complete, ht]
      simp [hkeyed, hgroup]

end Built

end Wiring

end CallFlow
