import CallFlow.Proofs.Completion

/-!
# How data flow can fail

A step of data flow fails in one of four ways (`Scene.Fails`): a value does not have the declared
type, a part of a value is not there, none of the groups of a slot counts, or a slot that groups
write does not exist.  Every step fails so (`Flow.failsAs_settle`, `Flow.failsAs_finish`, …),
where what exists is judged by the scene in which the step begins, since no step removes a
terminal (`Scene.Evolves.isSome_terminal?`).
-/

namespace CallFlow

namespace Scene

/-! ## Terminals that stay -/

/-- Where the same is declared, the same terminals are there. -/
theorem isSome_terminal?_congr {s s' : Scene}
    (hcalls : Assoc.mapValues AppliedCall.reset s'.frame.calls
      = Assoc.mapValues AppliedCall.reset s.frame.calls)
    (hboundary : s'.boundary.map Terminals.reset = s.boundary.map Terminals.reset) (slot : Slot) :
    (s'.terminal? slot).isSome = (s.terminal? slot).isSome := by
  have hget : ∀ (ts : Terminals) port, (ts.get? port).isSome = (ts.reset.get? port).isSome :=
    fun ts port => by rw [Terminals.get?_reset, Option.isSome_map]
  cases slot with
  | call id port =>
      have hshown : ∀ s : Scene, (s.terminal? (.call id port)).isSome
          = ((Assoc.find? (Assoc.mapValues AppliedCall.reset s.frame.calls) id).bind
              fun c => c.terminals.get? port).isSome := fun s => by
        rw [terminal?, Assoc.find?_mapValues]
        cases Assoc.find? s.frame.calls id with
        | none => rfl
        | some c => exact hget c.terminals port
      rw [hshown, hshown, hcalls]
  | boundary port =>
      have hshown : ∀ s : Scene, (s.terminal? (.boundary port)).isSome
          = ((s.boundary.map Terminals.reset).bind fun ts => ts.get? port).isSome := fun s => by
        rw [terminal?]
        cases s.boundary with
        | none => rfl
        | some ts => exact hget ts port
      rw [hshown, hshown, hboundary]
  | «variable» _ => rfl

/-- No step adds or removes a terminal. -/
theorem Evolves.isSome_terminal? {may : Slot → Prop} {s s' : Scene} (h : s.Evolves may s')
    (slot : Slot) : (s'.terminal? slot).isSome = (s.terminal? slot).isSome :=
  isSome_terminal?_congr h.calls h.boundary slot

/-! ## Faults of data flow -/

/-- The ways in which a step of data flow in the scene can fail. -/
inductive Fails (s : Scene) : RunFault → Prop where
  /-- A value was refused by the type of its place. -/
  | mismatch (place : Place) (expected : ValueType) (written : Written) :
      Fails s (.typeMismatch place expected written)
  /-- A source does not have the part that a mapping reads. -/
  | item (source : Endpoint) (reason : Value.ItemFault) : Fails s (.itemAccess source reason)
  /-- None of the groups of a slot counts. -/
  | undecided (slot : Slot) (calls : List CallId) :
      Fails s (.ambiguous s.frame.wiring.composition (.undecided slot calls))
  /-- A slot that is written does not exist. -/
  | missing {slot : Slot} (writes : s.frame.wiring.Writes slot) (absent : s.terminal? slot = none) :
      Fails s (.ambiguous s.frame.id (.missing slot))

variable {s s' : Scene} {may : Slot → Prop} {fault : RunFault}

/-- A fault of a later step is one of the scene before it. -/
theorem Fails.of_evolves (h : s'.Fails fault) (hevolves : s.Evolves may s') : s.Fails fault := by
  cases h with
  | mismatch place expected written => exact .mismatch place expected written
  | item source reason => exact .item source reason
  | undecided slot calls =>
      rw [hevolves.wiring]
      exact .undecided slot calls
  | @missing slot writes absent =>
      rw [hevolves.id]
      rw [hevolves.wiring] at writes
      refine .missing writes (Option.not_isSome_iff_eq_none.1 ?_)
      rw [← hevolves.isSome_terminal?, absent]
      simp

theorem fails_of_read {m : Mapping} (h : s.read m = .error fault) : s.Fails fault := by
  unfold read at h
  split at h
  · split at h
    · exact absurd h (by simp)
    · rename_i reason _
      obtain rfl := Except.error.inj h
      exact .item m.source reason
  · exact absurd h (by simp)

theorem fails_of_readGroup {group : List Mapping} (h : s.readGroup group = .error fault) :
    s.Fails fault := by
  induction group with
  | nil => exact absurd h (by simp [readGroup])
  | cons m rest ih =>
      rcases bind_eq_error h with hread | ⟨v, -, h⟩
      · exact fails_of_read hread
      · rcases bind_eq_error h with hrest | ⟨writes, -, h⟩
        · exact ih hrest
        · cases h

/-- A write fails in a type check, or for want of its slot. -/
theorem fails_of_write {slot : Slot} {writes : List (Option Strategy × Value)}
    (hslot : s.frame.wiring.Writes slot ∨ (s.terminal? slot).isSome = true)
    (h : s.write slot writes = (.error fault, s')) : s.Fails fault := by
  cases writes with
  | nil => exact absurd h (by simp [write])
  | cons w rest =>
      unfold write at h
      cases ht : s.terminal? slot with
      | none =>
          simp only [ht, Prod.mk.injEq] at h
          obtain rfl := Except.error.inj h.1
          rcases hslot with hwrites | hsome
          · exact .missing hwrites ht
          · exact absurd hsome (by simp [ht])
      | some t =>
          simp only [ht, Prod.mk.injEq] at h
          obtain ⟨written, rfl⟩ := Terminal.writeAll_eq_error (map_eq_error h.1)
          exact .mismatch _ _ written

end Scene

namespace Flow

variable {α β : Type} {may : Slot → Prop} {s : Scene}

/-- If the step fails in the scene, then as data flow can. -/
def FailsAs (x : Flow α) (s : Scene) : Prop :=
  ∀ fault s', x.run s = (.error fault, s') → s.Fails fault

theorem failsAs_pure (a : α) (s : Scene) : FailsAs (pure a) s :=
  fun fault s' h => absurd h (by simp)

/-- A sequence fails as data flow can if its parts do. -/
theorem failsAs_bind {x : Flow α} {f : α → Flow β} (hx : FailsAs x s)
    (hevolves : s.Evolves may (x.run s).2)
    (hf : ∀ a s₁, x.run s = (.ok a, s₁) → FailsAs (f a) s₁) : FailsAs (x >>= f) s := by
  intro fault s' h
  rw [run_bind] at h
  split at h
  · rename_i a s₁ hrun
    rw [hrun] at hevolves
    exact (hf a s₁ hrun fault s' h).of_evolves hevolves
  · rename_i fault' s₁ hrun
    obtain ⟨hfault, -⟩ := Prod.mk.inj h
    obtain rfl := Except.error.inj hfault
    exact hx fault' s₁ hrun

theorem failsAs_look_bind {g : Scene → Except RunFault α} {f : α → Flow β}
    (hg : ∀ fault, g s = .error fault → s.Fails fault)
    (hf : ∀ a, g s = .ok a → FailsAs (f a) s) : FailsAs (look g >>= f) s := by
  intro fault s' h
  rw [run_bind, run_look] at h
  cases hlook : g s with
  | error fault' =>
      simp only [hlook, Prod.mk.injEq] at h
      obtain rfl := Except.error.inj h.1
      exact hg fault' hlook
  | ok a =>
      simp only [hlook] at h
      exact hf a hlook fault s' h

theorem failsAs_get_bind {f : Scene → Flow β} (hf : FailsAs (f s) s) : FailsAs (get >>= f) s := by
  intro fault s' h
  rw [run_bind, run_get] at h
  exact hf fault s' h

/-! ## Ingestion and variables -/

theorem failsAs_write {slot : Slot} {writes : List (Option Strategy × Value)}
    (hslot : s.frame.wiring.Writes slot ∨ (s.terminal? slot).isSome = true) :
    FailsAs (write slot writes) s := fun _ _ h => Scene.fails_of_write hslot h

theorem failsAs_writeGroup {slot : Slot} {group : List Mapping}
    (hslot : s.frame.wiring.Writes slot) : FailsAs (writeGroup slot group) s :=
  failsAs_look_bind (fun _ h => Scene.fails_of_readGroup h) fun _ _ => failsAs_write (.inl hslot)

/-- **An ingestion fails as data flow can.** -/
theorem failsAs_ingest (slot : Slot) (s : Scene) : FailsAs (ingest slot) s := by
  intro fault s' h
  rw [run_ingest] at h
  split at h
  · rename_i group hgroup
    have hslot := Wiring.writes_of_current? (Wiring.current?_of_authoritative hgroup)
    exact failsAs_writeGroup hslot fault s' h
  · exact absurd h (by simp)
  · rename_i reason hreason
    obtain ⟨hfault, -⟩ := Prod.mk.inj h
    obtain rfl := Except.error.inj hfault
    unfold Wiring.authoritative at hreason
    split at hreason
    · exact absurd hreason (by simp)
    · split at hreason
      · exact absurd hreason (by simp)
      · obtain rfl := Except.error.inj hreason
        exact .undecided slot _

theorem failsAs_ingestAll (slots : List Slot) (s : Scene) : FailsAs (ingestAll slots) s := by
  induction slots generalizing s with
  | nil => exact failsAs_pure () s
  | cons slot rest ih =>
      exact failsAs_bind (failsAs_ingest slot s) (evolves_ingest s slot) fun _ s₁ _ => ih s₁

theorem failsAs_refresh (fuel : Nat) (s : Scene) (pending refreshed : List String) :
    FailsAs (refresh fuel pending refreshed) s := by
  induction fuel generalizing s pending refreshed with
  | zero => exact failsAs_pure _ s
  | succ fuel ih =>
    cases pending with
    | nil => exact failsAs_pure _ s
    | cons name pending =>
      intro fault s' h
      rw [run_refresh_cons] at h
      split at h
      · exact ih s pending refreshed fault s' h
      · split at h
        · exact ih s pending (name :: refreshed) fault s' h
        · rename_i group hgroup
          refine failsAs_bind (failsAs_writeGroup (Wiring.writes_of_current? hgroup))
            (evolves_writeGroup hgroup) (fun written s₁ _ => ?_) fault s' h
          -- what is done after the round only adds to the result
          intro fault s₂ h
          rw [run_bind] at h
          split at h
          · exact absurd h (by simp)
          · rename_i fault' s₃ hothers
            obtain ⟨hfault, -⟩ := Prod.mk.inj h
            obtain rfl := Except.error.inj hfault
            exact ih s₁ _ _ fault' s₃ hothers

theorem failsAs_propagate (s : Scene) (changed : List String) : FailsAs (propagate changed) s :=
  failsAs_get_bind (failsAs_refresh _ s _ _)

theorem fails_of_seeds {names : List String} {fault : RunFault} (h : seeds s names = .error fault) :
    s.Fails fault := by
  induction names with
  | nil => exact absurd h (by simp [seeds])
  | cons name rest ih =>
      rw [seeds] at h
      split at h
      · rcases bind_eq_error h with hread | ⟨writes, -, h⟩
        · exact Scene.fails_of_readGroup hread
        · rcases bind_eq_error h with hrest | ⟨others, -, h⟩
          · exact ih hrest
          · cases h
      · exact ih h

theorem failsAs_plant (l : List (String × List (Option Strategy × Value))) (s : Scene)
    (hl : ∀ entry ∈ l, s.frame.wiring.Writes (.variable entry.1)) : FailsAs (plant l) s := by
  induction l generalizing s with
  | nil => exact failsAs_pure _ s
  | cons entry rest ih =>
      obtain ⟨name, writes⟩ := entry
      have hname := hl (name, writes) (by simp)
      have hevolves := s.evolves_write (.variable name) writes fun hs => hs.declares hname
      refine failsAs_bind (failsAs_write (.inl hname)) hevolves fun written s₁ hwrite => ?_
      rw [run_write] at hwrite
      rw [hwrite] at hevolves
      have hrest :
          ∀ entry ∈ rest, s₁.frame.wiring.Writes (.variable entry.1) := fun entry hentry => by
        rw [hevolves.wiring]
        exact hl entry (List.mem_cons_of_mem _ hentry)
      exact failsAs_bind (ih s₁ hrest) (evolves_plant s₁ rest hrest) fun _ s₂ _ => failsAs_pure _ s₂

/-- **A seeding fails as data flow can.** -/
theorem failsAs_seed (s : Scene) : FailsAs seed s := by
  refine failsAs_look_bind (fun _ h => fails_of_seeds h) fun l hl => ?_
  refine failsAs_bind (failsAs_plant l s fun entry hentry => ?_) (evolves_plant_of_seeds hl)
    fun planted s₁ _ => ?_
  · obtain ⟨-, -, group, hgroup, -⟩ := mem_seeds hl hentry
    exact Wiring.writes_of_current? hgroup
  · exact failsAs_bind (failsAs_propagate s₁ planted) (evolves_propagate s₁ planted)
      fun _ s₂ _ => failsAs_pure _ s₂

/-! ## Completion of a call, and results -/

theorem fails_of_pushes {ms : List Mapping} {fault : RunFault} (h : pushes s ms = .error fault) :
    s.Fails fault := by
  induction ms with
  | nil => exact absurd h (by simp [pushes])
  | cons m rest ih =>
      rw [pushes] at h
      rcases bind_eq_error h with hread | ⟨v, -, h⟩
      · exact Scene.fails_of_read hread
      · rcases bind_eq_error h with hrest | ⟨others, -, h⟩
        · exact ih hrest
        · split at h <;> cases h

theorem failsAs_pushAll (values : List (Slot × Value)) (s : Scene)
    (hvalues : ∀ entry ∈ values, s.frame.wiring.Writes entry.1) : FailsAs (pushAll values) s := by
  induction values generalizing s with
  | nil => exact failsAs_pure _ s
  | cons entry rest ih =>
      obtain ⟨slot, v⟩ := entry
      have hslot := hvalues (slot, v) (by simp)
      have hevolves := s.evolves_write slot [(some .append, v)] fun hs => hs.declares hslot
      refine failsAs_bind (failsAs_write (.inl hslot)) hevolves fun written s₁ hwrite => ?_
      rw [run_write] at hwrite
      rw [hwrite] at hevolves
      have hrest : ∀ entry ∈ rest, s₁.frame.wiring.Writes entry.1 := fun entry hentry => by
        rw [hevolves.wiring]
        exact hvalues entry (List.mem_cons_of_mem _ hentry)
      refine failsAs_bind (ih s₁ hrest) (evolves_pushAll s₁ rest hrest) fun _ s₂ _ => ?_
      cases slot <;> exact failsAs_pure _ s₂

theorem failsAs_feed (names : List String) (s : Scene) : FailsAs (feed names) s := by
  induction names generalizing s with
  | nil => exact failsAs_pure _ s
  | cons name rest ih =>
      exact failsAs_bind (failsAs_ingest (.variable name) s) (evolves_ingest s (.variable name))
        fun _ s₁ _ => failsAs_bind (ih s₁) (evolves_feed s₁ rest) fun _ s₂ _ => failsAs_pure _ s₂

/-- **A completion fails as data flow can**, in the scene in which its groups are authoritative. -/
theorem failsAs_settle {call : CallId} {fault : RunFault} {s' : Scene}
    (h : (settle call).run s = (.error fault, s')) : (s.complete call).Fails fault := by
  have hmark : (modify fun s : Scene => { s with frame.wiring := s.frame.wiring.complete call } :
      Flow Unit).run s = (.ok (), s.complete call) := rfl
  rw [settle, run_bind, hmark] at h
  revert h
  refine failsAs_look_bind (fun _ h => fails_of_pushes h) (fun values hvalues => ?_) fault s'
  refine failsAs_bind (failsAs_pushAll values _ fun entry hentry => ?_) (evolves_pushes hvalues)
    fun pushed s₁ _ => failsAs_get_bind ?_
  · obtain ⟨m, hm, hslot, -⟩ := mem_pushes hvalues hentry
    exact .inr ⟨m, (Wiring.mem_accumulatingFrom.1 hm).1, hslot⟩
  · exact failsAs_bind (failsAs_feed _ s₁) (evolves_feed s₁ _) fun fed s₂ _ =>
      failsAs_bind (failsAs_propagate s₂ _) (evolves_propagate s₂ _) fun _ s₃ _ => failsAs_pure _ s₃

theorem failsAs_write_of_boundaryWritten? {port : Port} {writes : List (Option Strategy × Value)}
    {b : Bool} (h : boundaryWritten? s port = some b) :
    FailsAs (write (.boundary port) writes) s := by
  refine failsAs_write (.inr ?_)
  obtain ⟨ts, hts, hport⟩ := Option.bind_eq_some_iff.1 h
  obtain ⟨t, ht, -⟩ := Option.map_eq_some_iff.1 hport
  simp [Scene.terminal?, hts, ht]

theorem failsAs_finishOutput (s : Scene) : FailsAs finishOutput s := by
  refine failsAs_bind (failsAs_ingest _ s) (evolves_ingest s _) fun ingested s₁ _ =>
    failsAs_get_bind ?_
  split
  · rename_i hwritten
    have hport : boundaryWritten? s₁ .output = some false := by
      simp only [Bool.and_eq_true, beq_iff_eq] at hwritten
      exact hwritten.2
    exact failsAs_bind (failsAs_write_of_boundaryWritten? hport) (evolves_write_boundary s₁ _ _)
      fun _ s₂ _ => failsAs_pure () s₂
  · exact failsAs_pure () s₁

theorem failsAs_finishSelfOutput (s : Scene) : FailsAs finishSelfOutput s := by
  refine failsAs_get_bind ?_
  split
  · exact failsAs_pure () s
  · rename_i written hwritten
    have hevolves := evolves_ingest s (.boundary .selfOutput)
    refine failsAs_bind (failsAs_ingest _ s) hevolves fun ingested s₁ hingest => ?_
    rw [hingest] at hevolves
    split
    · refine failsAs_get_bind ?_
      have hport : (s₁.terminal? (.boundary .selfOutput)).isSome = true := by
        rw [hevolves.isSome_terminal?]
        obtain ⟨ts, hts, hport⟩ := Option.bind_eq_some_iff.1 hwritten
        obtain ⟨t, ht, -⟩ := Option.map_eq_some_iff.1 hport
        simp [Scene.terminal?, hts, ht]
      exact failsAs_bind (failsAs_write (.inr hport)) (evolves_write_boundary s₁ _ _)
        fun _ s₂ _ => failsAs_pure () s₂
    · exact failsAs_pure () s₁

/-- **Moving out the results fails as data flow can.** -/
theorem failsAs_finish (s : Scene) : FailsAs finish s :=
  failsAs_bind (failsAs_finishOutput s) (evolves_finishOutput s) fun _ s₁ _ =>
    failsAs_finishSelfOutput s₁

end Flow

end CallFlow
