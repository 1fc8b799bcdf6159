import CallFlow.RunFault

/-!
# Wiring

The mappings of a composition, grouped by the slot they write and then by their priority.  At any
moment one group of a slot is authoritative: the one without priority until a call that keys a group
completes, and from then on the group of the call that completed last.

A mapping that appends the output of a call belongs to no group.  Such mappings accumulate: they
push a value each time their call completes.

`Wiring.build` groups the mappings of a composition and refuses those in which one write of a group
would lose another.  It also fills tables, so that what a call feeds and what reads a variable is
looked up.  A wiring carries the proof that its tables are those of its mappings and groups.
-/

namespace CallFlow

namespace Mapping

/-- The call whose terminal the mapping reads. -/
def sourceCall? (m : Mapping) : Option CallId :=
  match m.source with
  | .call id _ => some id
  | _ => none

/-- Does the mapping read the variable? -/
def readsVariable (m : Mapping) (name : String) : Bool :=
  match m.source with
  | .variable source => source == name
  | _ => false

/-- Does the mapping push a value each time its source call completes? -/
def isAccumulating (m : Mapping) : Bool :=
  m.sourceCall?.isSome && m.targetStrategy == some .append

/-- Does the mapping write the whole value? -/
def isDirect (m : Mapping) : Bool := m.targetStrategy.isNone

end Mapping

/-- The groups of the mappings into one slot, and which of them is authoritative. -/
structure Target where
  groups : Assoc (Option CallId) (List Mapping)
  authority : Option CallId := none

/-- Adds a mapping to the group of its priority. -/
def Target.add (t : Target) (m : Mapping) : Target :=
  let group := (Assoc.find? t.groups m.priority).getD []
  { t with groups := Assoc.insert t.groups m.priority (group ++ [m]) }

/-- The authoritative group, if there is one. -/
def Target.current? (t : Target) : Option (List Mapping) := Assoc.find? t.groups t.authority

/-- All mappings into the slot, group by group. -/
def Target.mappings (t : Target) : List Mapping := (Assoc.values t.groups).flatten

/-! ## Tables -/

/-- Enters a mapping that accumulates under the call that it reads. -/
def Mapping.accumulate (table : Assoc CallId (List Mapping)) (m : Mapping) :
    Assoc CallId (List Mapping) :=
  match m.source, m.targetStrategy with
  | .call id _, some .append => Assoc.push table id m
  | _, _ => table

/-- The mappings that accumulate, by the call that they read. -/
def Mapping.accumulated (ms : List Mapping) : Assoc CallId (List Mapping) :=
  ms.foldl Mapping.accumulate []

/-- What is looked up about groups, entered once. -/
structure Indices where
  /-- The slots of each call that groups write. -/
  inputs : Assoc CallId (List Slot) := []
  /-- The variables with a group mapping that reads the call. -/
  fed : Assoc CallId (List String) := []
  /-- The variables with a group mapping that reads the variable. -/
  readers : Assoc String (List String) := []

namespace Indices

/-- Enters a variable under what a mapping into it reads, unless it is there. -/
def addSource (name : String) (t : Indices) (m : Mapping) : Indices :=
  match m.source with
  | .call id _ => { t with fed := Assoc.pushNew t.fed id name }
  | .variable source => { t with readers := Assoc.pushNew t.readers source name }
  | .constant _ | .boundary _ => t

/-- Enters the groups of a slot. -/
def addTarget (t : Indices) : Slot × Target → Indices
  | (.call id port, _) => { t with inputs := Assoc.push t.inputs id (.call id port) }
  | (.variable name, target) => target.mappings.foldl (addSource name) t
  | (.boundary _, _) => t

/-- The indices of the groups of all slots. -/
def ofTargets (targets : Assoc Slot Target) : Indices := targets.foldl addTarget {}

/-- Indices do not depend on which groups are authoritative. -/
theorem ofTargets_mapValues {f : Target → Target} (hf : ∀ t, (f t).groups = t.groups)
    (targets : Assoc Slot Target) : ofTargets (Assoc.mapValues f targets) = ofTargets targets := by
  have hstep : ∀ (t : Indices) slot target,
      t.addTarget (slot, f target) = t.addTarget (slot, target) := by
    intro t slot target
    cases slot with
    | call _ _ | boundary _ => rfl
    | «variable» name => simp only [addTarget, Target.mappings, hf]
  have hfold : ∀ t : Indices,
      (Assoc.mapValues f targets).foldl addTarget t = targets.foldl addTarget t := by
    induction targets with
    | nil => exact fun _ => rfl
    | cons entry rest ih =>
        intro t
        rw [Assoc.mapValues, List.foldl_cons, List.foldl_cons, hstep, ih]
  exact hfold {}

end Indices

/-- The mappings of one composition and the authority of each slot. -/
structure Wiring where
  composition : CompositionId
  /-- All mappings, in order of declaration. -/
  mappings : List Mapping
  targets : Assoc Slot Target
  accumulating : Assoc CallId (List Mapping)
  indices : Indices
  /-- A slot has one target. -/
  once : (Assoc.keys targets).Nodup
  /-- The tables are those of the mappings and of the groups. -/
  accumulates : accumulating = Mapping.accumulated mappings
  indexed : indices = .ofTargets targets

namespace Wiring

/-! ## Grouping -/

/-- The slot that a mapping writes. -/
def slotOf (m : Mapping) : Except Ambiguity Slot :=
  match Slot.of? m.target with
  | some slot => if slot.isInput then .ok slot else .error (.notATarget m.target)
  | none => .error (.notATarget m.target)

/-- Adds a mapping to the groups of its slot. -/
def addTarget (targets : Assoc Slot Target) (slot : Slot) (m : Mapping) : Assoc Slot Target :=
  let target := (Assoc.find? targets slot).getD { groups := [] }
  Assoc.insert targets slot (target.add m)

/-- Groups the mappings that do not accumulate. -/
def groupAll : Assoc Slot Target → List (Slot × Mapping) → Assoc Slot Target
  | targets, [] => targets
  | targets, (slot, m) :: rest =>
      groupAll (if m.isAccumulating then targets else addTarget targets slot m) rest

theorem nodup_keys_groupAll (targets : Assoc Slot Target) (h : (Assoc.keys targets).Nodup)
    (placed : List (Slot × Mapping)) : (Assoc.keys (groupAll targets placed)).Nodup := by
  induction placed generalizing targets with
  | nil => exact h
  | cons p rest ih =>
      obtain ⟨slot, m⟩ := p
      rw [groupAll]
      split
      · exact ih targets h
      · exact ih _ (Assoc.nodup_keys_insert h _ _)

/-- The wiring of groups, with its tables filled. -/
def ofTargets (composition : CompositionId) (mappings : List Mapping) (targets : Assoc Slot Target)
    (once : (Assoc.keys targets).Nodup) : Wiring where
  composition
  mappings
  targets
  accumulating := Mapping.accumulated mappings
  indices := .ofTargets targets
  once
  accumulates := rfl
  indexed := rfl

/-- The first strategy in the list that repeats one before it.  Appends never do. -/
def repeated? : (before : List Strategy) → List Strategy → Option Strategy
  | _, [] => none
  | before, s :: rest =>
      if s = .append then repeated? before rest
      else if before.contains s then some s
      else repeated? (s :: before) rest

/-- Why the writes of one group would get in each other's way, if they would. -/
def groupFault? (slot : Slot) (priority : Option CallId) (group : List Mapping) :
    Option Ambiguity :=
  let direct := (group.filter Mapping.isDirect).length
  if 1 < direct then some (.competing slot priority direct)
  else if direct = 1 && 1 < group.length then some (.mixed slot priority)
  else (repeated? [] (group.filterMap (·.targetStrategy))).map (.writtenTwice slot priority)

/-- The first fault of the groups of one slot.  `appended` says that mappings accumulate in it. -/
def targetFault? (slot : Slot) (appended : Bool) :
    List (Option CallId × List Mapping) → Option Ambiguity
  | [] => none
  | (priority, group) :: rest =>
      match groupFault? slot priority group with
      | some fault => some fault
      | none =>
          if group.any Mapping.isDirect && appended then some (.mixedWithAppends slot)
          else targetFault? slot appended rest

/-- The first fault of the groups of all slots. -/
def fault? (appended : List Slot) : Assoc Slot Target → Option Ambiguity
  | [] => none
  | (slot, target) :: rest =>
      match targetFault? slot (appended.contains slot) target.groups with
      | some fault => some fault
      | none => fault? appended rest

/-- Groups mappings and fills the tables, where no group is keyed by a completed call yet. -/
def build (composition : CompositionId) (mappings : List Mapping) : Except Ambiguity Wiring := do
  let slots ← mappings.mapM slotOf
  let placed := slots.zip mappings
  let targets := groupAll [] placed
  let appended := (placed.filter fun p => p.2.isAccumulating).map (·.1)
  match fault? appended targets with
  | some fault => .error fault
  | none => .ok (ofTargets composition mappings targets (nodup_keys_groupAll [] .nil placed))

/-! ## Authority -/

/-- The authoritative group of a slot, or nothing if no group writes the slot.  It is an error that
there are groups and none of them is authoritative. -/
def authoritative (w : Wiring) (slot : Slot) : Except Ambiguity (Option (List Mapping)) :=
  match Assoc.find? w.targets slot with
  | none => .ok none
  | some target =>
      match target.current? with
      | some group => .ok (some group)
      | none => .error (.undecided slot ((Assoc.keys target.groups).filterMap id))

/-- The authoritative group of a slot, if there is one. -/
def current? (w : Wiring) (slot : Slot) : Option (List Mapping) :=
  (Assoc.find? w.targets slot).bind Target.current?

/-- Changes targets and leaves their groups as they are. -/
def mapTargets (w : Wiring) (f : Target → Target) (hf : ∀ t, (f t).groups = t.groups) : Wiring :=
  { w with
    targets := Assoc.mapValues f w.targets
    once := by
      rw [Assoc.keys_mapValues]
      exact w.once
    indexed := w.indexed.trans (Indices.ofTargets_mapValues hf w.targets).symm }

/-- Makes the groups that a call keys authoritative. -/
def complete (w : Wiring) (call : CallId) : Wiring :=
  w.mapTargets
    (fun t => if Assoc.contains t.groups (some call) then { t with authority := some call } else t)
    fun t => by split <;> rfl

/-- Takes all authority back. -/
def reset (w : Wiring) : Wiring := w.mapTargets (fun t => { t with authority := none }) fun _ => rfl

/-- Wirings of the same groups have the same tables. -/
theorem eq_of_targets {w w' : Wiring} (hcomposition : w.composition = w'.composition)
    (hmappings : w.mappings = w'.mappings) (htargets : w.targets = w'.targets) : w = w' := by
  have haccumulating := w.accumulates
  have hindices := w.indexed
  rw [hmappings, ← w'.accumulates] at haccumulating
  rw [htargets, ← w'.indexed] at hindices
  cases w
  cases w'
  subst hcomposition hmappings htargets haccumulating hindices
  rfl

@[simp] theorem targets_complete (w : Wiring) (call : CallId) :
    (w.complete call).targets = Assoc.mapValues (fun t =>
      if Assoc.contains t.groups (some call) then { t with authority := some call } else t)
      w.targets := rfl

@[simp] theorem targets_reset (w : Wiring) :
    w.reset.targets = Assoc.mapValues (fun t => { t with authority := none }) w.targets := rfl

/-- Authority that was taken back is not there to be taken back. -/
@[simp] theorem reset_reset (w : Wiring) : w.reset.reset = w.reset :=
  eq_of_targets rfl rfl (by simp [Assoc.mapValues_mapValues])

/-! ## Queries -/

/-- Do groups write the slot? -/
def targetsSlot (w : Wiring) (slot : Slot) : Bool := Assoc.contains w.targets slot

/-- The slots of a call that groups write. -/
def inputSlots (w : Wiring) (call : CallId) : List Slot := Assoc.getAll w.indices.inputs call

/-- The accumulating mappings that a call feeds. -/
def accumulatingFrom (w : Wiring) (call : CallId) : List Mapping := Assoc.getAll w.accumulating call

/-- The variables with a group mapping that reads the call. -/
def fedBy (w : Wiring) (call : CallId) : List String := Assoc.getAll w.indices.fed call

/-- The variables with a group mapping that reads the variable. -/
def readers (w : Wiring) (name : String) : List String := Assoc.getAll w.indices.readers name

/-- The variables that groups write. -/
def writtenVariables (w : Wiring) : List String :=
  (Assoc.keys w.targets).filterMap fun slot =>
    match slot with
    | .variable name => some name
    | .call _ _ | .boundary _ => none

/-- All mappings, with whether they take part at the moment: accumulating ones always do. -/
def edges (w : Wiring) : List (Mapping × Bool) :=
  w.mappings.map fun m =>
    match (Slot.of? m.target).bind (Assoc.find? w.targets) with
    | some target => (m, m.isAccumulating || target.authority == m.priority)
    | none => (m, true)

end Wiring

end CallFlow
