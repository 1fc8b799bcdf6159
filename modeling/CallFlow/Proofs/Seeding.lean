import CallFlow.Proofs.Readers

/-!
# What seeding leaves of inputs

Seeding takes place in two phases.  First it plants: each variable that is not bound starts from
what its group without priority reads in the beginning (`Flow.mem_planted_iff`), and a bound
variable is passed over.  Then it propagates from the variables that were planted, and in that
phase a bound variable is re-read like any other.  So a bound variable keeps its input unless a
variable is planted upstream of it, in which case its group without priority takes the place of
the input (`Walk.seeded_of_begins`).
-/

namespace CallFlow

namespace Flow

variable {s s' : Scene} {name : String} {l : List (String × List (Option Strategy × Value))}
  {planted : List String}

/-! ## Planting -/

/-- Variables are planted if there is something to write into them. -/
theorem mem_planted (h : (plant l).run s = (.ok planted, s')) :
    name ∈ planted ↔ ∃ writes, (name, writes) ∈ l ∧ writes ≠ [] := by
  induction l generalizing s planted with
  | nil =>
      obtain ⟨hplanted, -⟩ := Prod.mk.inj h
      simp [← Except.ok.inj hplanted]
  | cons entry rest ih =>
      obtain ⟨n, writes⟩ := entry
      obtain ⟨b, s₁, hwrite, h⟩ := run_bind_eq_ok h
      obtain ⟨others, s₂, hrest, h⟩ := run_bind_eq_ok h
      obtain ⟨hplanted, rfl⟩ := Prod.mk.inj h
      rw [← Except.ok.inj hplanted]
      rw [run_write] at hwrite
      rcases Scene.write_eq_ok hwrite with ⟨rfl, rfl, -⟩ | ⟨hne, rfl, -⟩
      · simp [ih hrest, or_and_right, exists_or]
      · simp [ih hrest, or_and_right, exists_or, and_assoc, hne]

/-- A variable that is not planted keeps its terminal. -/
theorem terminal?_of_not_planted (h : (plant l).run s = (.ok planted, s'))
    (hname : name ∉ planted) :
    s'.terminal? (.variable name) = s.terminal? (.variable name) := by
  induction l generalizing s planted with
  | nil =>
      obtain ⟨-, rfl⟩ := Prod.mk.inj h
      rfl
  | cons entry rest ih =>
      obtain ⟨n, writes⟩ := entry
      obtain ⟨b, s₁, hwrite, h⟩ := run_bind_eq_ok h
      obtain ⟨others, s₂, hrest, h⟩ := run_bind_eq_ok h
      obtain ⟨hplanted, rfl⟩ := Prod.mk.inj h
      rw [← Except.ok.inj hplanted] at hname
      rw [run_write] at hwrite
      cases b with
      | true =>
          obtain ⟨hne, hothers⟩ : name ≠ n ∧ name ∉ others := by simpa using hname
          rw [ih hrest hothers, Scene.terminal?_of_write hwrite (by simpa using Ne.symm hne)]
      | false =>
          rcases Scene.write_eq_ok hwrite with ⟨-, -, rfl⟩ | ⟨-, hb, -⟩
          · exact ih hrest hname
          · exact absurd hb (by simp)

/-- A variable that is planted is written. -/
theorem written_plant (hl : ∀ entry ∈ l, s.frame.wiring.Writes (.variable entry.1))
    (h : (plant l).run s = (.ok planted, s')) (hname : name ∈ planted) :
    (s'.peek (.variable name)).isSome = true := by
  induction l generalizing s planted with
  | nil =>
      obtain ⟨hplanted, -⟩ := Prod.mk.inj h
      exact absurd hname (by simp [← Except.ok.inj hplanted])
  | cons entry rest ih =>
      obtain ⟨n, writes⟩ := entry
      obtain ⟨b, s₁, hwrite, h⟩ := run_bind_eq_ok h
      obtain ⟨others, s₂, hrest, h⟩ := run_bind_eq_ok h
      obtain ⟨hplanted, rfl⟩ := Prod.mk.inj h
      rw [← Except.ok.inj hplanted] at hname
      rw [run_write] at hwrite
      have hwrote :=
        s.evolves_write (.variable n) writes fun hs => hs.declares (hl (n, writes) (by simp))
      rw [hwrite] at hwrote
      have hlater :
          ∀ entry ∈ rest, s₁.frame.wiring.Writes (.variable entry.1) := fun entry hentry => by
        rw [hwrote.wiring]
        exact hl entry (List.mem_cons_of_mem _ hentry)
      cases b with
      | false => exact ih hlater hrest hname
      | true =>
          rcases List.mem_cons.1 hname with rfl | hname
          · have hevolves := evolves_plant s₁ rest hlater
            rw [hrest] at hevolves
            exact hevolves.written _ (Scene.isSome_peek_of_write hwrite)
          · exact ih hlater hrest hname

/-- **What is planted**: the variables that are not bound and for which a group is authoritative
that has something to read. -/
theorem mem_planted_iff (hl : seeds s s.frame.wiring.writtenVariables = .ok l)
    (h : (plant l).run s = (.ok planted, s')) :
    name ∈ planted ↔ (Assoc.find? s.frame.vars name).any Terminal.isFresh = false ∧
      ∃ group writes, s.frame.wiring.current? (.variable name) = some group ∧
        s.readGroup group = .ok writes ∧ writes ≠ [] := by
  rw [mem_planted h]
  constructor
  · rintro ⟨writes, hmem, hne⟩
    obtain ⟨-, hfree, group, hgroup, hread⟩ := mem_seeds hl hmem
    exact ⟨hfree, group, writes, hgroup, hread, hne⟩
  · rintro ⟨hfree, group, writes, hgroup, hread, hne⟩
    obtain ⟨writes', hmem⟩ :=
      exists_seed hl (Wiring.mem_writtenVariables_of_current? hgroup) hfree hgroup
    obtain ⟨-, -, group', hgroup', hread'⟩ := mem_seeds hl hmem
    obtain rfl : group = group' := Option.some.inj (hgroup.symm.trans hgroup')
    obtain rfl : writes = writes' := Except.ok.inj (hread.symm.trans hread')
    exact ⟨writes, hmem, hne⟩

/-! ## Seeding -/

/-- The two phases of a seeding that has succeeded. -/
theorem exists_rounds_of_seed (hb : s.frame.wiring.Built) (h : seed.run s = (.ok (), s')) :
    ∃ (planted : List String) (rounds : List Round) (s₁ : Scene),
      (∀ n, n ∈ planted ↔ (Assoc.find? s.frame.vars n).any Terminal.isFresh = false ∧
        ∃ group writes, s.frame.wiring.current? (.variable n) = some group ∧
          s.readGroup group = .ok writes ∧ writes ≠ []) ∧
      (∀ n, n ∉ planted → s₁.terminal? (.variable n) = s.terminal? (.variable n)) ∧
      (∀ n ∈ planted, (s₁.peek (.variable n)).isSome = true) ∧
      s₁.frame.wiring = s.frame.wiring ∧
      Refreshes (planted.flatMap s₁.frame.wiring.readers) [] rounds s₁ s' := by
  obtain ⟨l, planted, s₁, order, hl, hplant, hpropagate⟩ := seed_eq_ok h
  have hevolves := evolves_plant_of_seeds hl
  rw [hplant] at hevolves
  have hwrites : ∀ entry ∈ l, s.frame.wiring.Writes (.variable entry.1) := by
    intro entry hentry
    obtain ⟨-, -, group, hgroup, -⟩ := mem_seeds hl hentry
    exact Wiring.writes_of_current? hgroup
  obtain ⟨rounds, -, hrounds⟩ := refreshes_of_propagate (hevolves.wiring ▸ hb) hpropagate
  exact ⟨planted, rounds, s₁, fun _ => mem_planted_iff hl hplant,
    fun _ => terminal?_of_not_planted hplant, fun _ => written_plant hwrites hplant,
    hevolves.wiring, hrounds⟩

end Flow

/-- What seeding makes of the variables of a run that begins with inputs.  The second scene is that
after planting, and the third that after the rounds of the propagation. -/
structure Walk.Seeded (inputs : List (String × Value)) (s₀ s₁ s : Scene) (planted : List String)
    (rounds : List Flow.Round) : Prop where
  /-- Variables without an input are planted, if their groups without priority have something to
  read. -/
  planted_iff : ∀ n, n ∈ planted ↔ Assoc.find? inputs.reverse n = none ∧
    ∃ writes, s₀.readGroup (s₀.frame.wiring.group (.variable n) none) = .ok writes ∧ writes ≠ []
  /-- The propagation starts at these. -/
  propagates : Flow.Refreshes (planted.flatMap s₀.frame.wiring.readers) [] rounds s₁ s
  /-- Planting leaves the inputs alone. -/
  bound : ∀ n v, Assoc.find? inputs.reverse n = some v → s₁.peek (.variable n) = some v
  /-- An input that is not re-read survives. -/
  kept : ∀ n v, Assoc.find? inputs.reverse n = some v → n ∉ Flow.Round.writtenNames rounds →
    s.peek (.variable n) = some v
  /-- Only variables with a group without priority are re-read, and only downstream of planted
  ones. -/
  reread : ∀ n ∈ Flow.Round.writtenNames rounds, s₀.frame.wiring.group (.variable n) none ≠ [] ∧
    ∃ source ∈ planted, Flow.Downstream s₀.frame.wiring source n
  /-- A variable is re-read in place of its input if its group reads one that was written. -/
  follows : ∀ {n source m}, m ∈ s₀.frame.wiring.group (.variable n) none →
    Mapping.Fixed (s₀.frame.wiring.group (.variable n) none) →
    Mapping.Lossless (s₀.frame.wiring.group (.variable n) none) → m.source = .variable source →
    source ≠ n → source ∈ planted ++ Flow.Round.writtenNames rounds →
    Flow.Follows s₁ s planted rounds n source m

namespace Walk

variable {ctx : Context} {id : CompositionId} {inputs : List (String × Value)}
  {w₀ : Walk} {s : Scene}

/-- **What becomes of inputs before the first visit.**  When seeding has succeeded, an input is what
its variable holds unless the variable was re-read, which happens downstream of variables that have
started from their groups; it then holds what its own group reads. -/
theorem seeded_of_begins (hbegins : w₀.Begins ctx id inputs)
    (hseed : Flow.seed.run w₀.scene = (.ok (), s)) :
    ∃ planted rounds s₁, Seeded inputs w₀.scene s₁ s planted rounds := by
  have hb := hbegins.built
  have hcurrent := fun n => hb.current?_of_reset hbegins.reset_wiring (.variable n)
  obtain ⟨planted, rounds, s₁, hplanted, hothers, hwritten, hwiring, hrounds⟩ :=
    Flow.exists_rounds_of_seed hb hseed
  have hiff : ∀ n, n ∈ planted ↔ Assoc.find? inputs.reverse n = none ∧
      ∃ writes, w₀.scene.readGroup (w₀.scene.frame.wiring.group (.variable n) none) = .ok writes ∧
        writes ≠ [] := by
    intro n
    obtain ⟨hpeek, hfresh⟩ := hbegins.bound n
    rw [hplanted n, hfresh, hpeek, hcurrent n]
    refine and_congr (by simp) ⟨?_, ?_⟩
    · rintro ⟨group, writes, hgroup, hread, hne⟩
      split at hgroup
      · exact absurd hgroup (by simp)
      · obtain rfl := Option.some.inj hgroup
        exact ⟨writes, hread, hne⟩
    · rintro ⟨writes, hread, hne⟩
      refine ⟨_, writes, if_neg ?_, hread, hne⟩
      intro hnil
      rw [hnil] at hread
      exact hne (Except.ok.inj hread).symm
  have hbound : ∀ n v, Assoc.find? inputs.reverse n = some v → s₁.peek (.variable n) = some v := by
    intro n v hv
    have hnot : n ∉ planted := fun hc => absurd (((hiff n).1 hc).1.symm.trans hv) (by simp)
    rw [Scene.peek_variable, hothers n hnot, ← Scene.peek_variable, (hbegins.bound n).1, hv]
  have hrounds₀ :
      Flow.Refreshes (planted.flatMap w₀.scene.frame.wiring.readers) [] rounds s₁ s := by
    rw [← hwiring]
    exact hrounds
  refine ⟨planted, rounds, s₁, hiff, hrounds₀, hbound, ?_, ?_, ?_⟩
  · intro n v hv hnot
    rw [Scene.peek_variable, hrounds.rereads.terminal?_eq hnot, ← Scene.peek_variable]
    exact hbound n v hv
  · intro n hn
    constructor
    · obtain ⟨before, after, hsplit⟩ := List.append_of_mem (Flow.Round.mem_writtenNames.1 hn)
      obtain ⟨s₂, -, group, hbefore, hgroup, -, -⟩ := hrounds.split hsplit
      rw [hbefore.evolves.wiring, hwiring, hcurrent n] at hgroup
      intro hnil
      rw [if_pos hnil] at hgroup
      exact absurd hgroup (by simp)
    · have hdownstream := hrounds.downstream (Flow.Round.mem_names_of_written hn)
      rwa [hwiring] at hdownstream
  · intro n source m hm hfixed hlossless hsource hne hmem
    have hgroup : s₁.frame.wiring.current? (.variable n)
        = some (w₀.scene.frame.wiring.group (.variable n) none) := by
      rw [hwiring, hcurrent n, if_neg (List.ne_nil_of_mem hm)]
    exact Flow.follows_of_refreshes (hwiring ▸ hb) hrounds hwritten hgroup hfixed hlossless
      hm hsource hne
      hmem

end Walk

namespace Sample

/-- The variable `u` starts from a constant and `v` reads it. -/
def chain : Context where
  graph := .ofParts "chain" [] [{
    id := ⟨0⟩, name := "chain", represents := none, starts := [], calls := []
    mappings := [
      ⟨.constant (.int 1), none, .variable "u", none, none⟩,
      ⟨.variable "u", none, .variable "v", none, none⟩] }]
  host := host
  checked := true

/-- The frame in which `v` has an input. -/
def given : Frame :=
  let t := Terminal.ofVariable "v"
  { frameOf chain with
    vars := Assoc.insert (frameOf chain).vars "v" { t with cell := t.cell.write (.int 5) } }

end Sample

/-- The input of `v` is lost before the first visit. -/
theorem Walk.seeded_of_begins_sample : ∃ (w₀ : Walk) (s₁ s : Scene) (planted : List String)
    (rounds : List Flow.Round),
    w₀.Begins Sample.chain ⟨0⟩ [("v", .int 5)] ∧ w₀.scene.peek (.variable "v") = some (.int 5) ∧
    Flow.seed.run w₀.scene = (.ok (), s) ∧ Seeded [("v", .int 5)] w₀.scene s₁ s planted rounds ∧
    s.peek (.variable "v") = some (.int 1) := by
  have hbegins : (begin (.mk Sample.given [] []) none (.start false)).Begins Sample.chain ⟨0⟩
      [("v", .int 5)] :=
    .standalone (f := Sample.frameOf Sample.chain) rfl rfl
  obtain ⟨planted, rounds, s₁, hseeded⟩ := seeded_of_begins hbegins
    (s := (Flow.seed.run (begin (.mk Sample.given [] []) none (.start false)).scene).2) rfl
  exact ⟨_, s₁, _, planted, rounds, hbegins, rfl, rfl, hseeded, rfl⟩

end CallFlow
