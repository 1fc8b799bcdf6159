import CallFlow.Proofs.Flow

/-!
# What the end of a call and the end of a run change

The completion of a call switches authority; after that switch, `settle` writes only where the
call pushes, the variables that the call feeds, and variables that read variables
(`Flow.evolves_settle`).  The end of a run writes the results only (`Flow.evolves_finish`), and
leaves none of them unwritten (`Flow.settled_finish`).
-/

namespace CallFlow

/-- The scene in which the groups that the call keys are authoritative. -/
def Scene.complete (s : Scene) (call : CallId) : Scene :=
  { s with frame.wiring := s.frame.wiring.complete call }

namespace Flow

/-! ## Completion of a call -/

/-- Pushed values are read from the accumulating mappings, for the slots that these write. -/
theorem mem_pushes {s : Scene} {ms : List Mapping} {l : List (Slot × Value)}
    (h : pushes s ms = .ok l) {slot : Slot} {v : Value} (hmem : (slot, v) ∈ l) :
    ∃ m ∈ ms, Slot.of? m.target = some slot ∧ s.read m = .ok (some v) := by
  induction ms generalizing l with
  | nil =>
      cases h
      exact absurd hmem (by simp)
  | cons m rest ih =>
      rw [pushes] at h
      obtain ⟨value, hread, h⟩ := bind_eq_ok h
      obtain ⟨others, hrest, h⟩ := bind_eq_ok h
      have hlater : (slot, v) ∈ others →
          ∃ m' ∈ m :: rest, Slot.of? m'.target = some slot ∧ s.read m' = .ok (some v) := by
        intro hmem
        obtain ⟨m', hm', hpush⟩ := ih hrest hmem
        exact ⟨m', List.mem_cons_of_mem _ hm', hpush⟩
      cases value with
      | none =>
          obtain rfl := Except.ok.inj h
          exact hlater hmem
      | some u =>
          cases hslot : Slot.of? m.target with
          | none =>
              rw [hslot] at h
              obtain rfl := Except.ok.inj h
              exact hlater hmem
          | some slot' =>
              rw [hslot] at h
              obtain rfl := Except.ok.inj h
              rcases List.mem_cons.1 hmem with heq | hmem
              · obtain ⟨rfl, rfl⟩ := Prod.mk.inj heq
                exact ⟨m, by simp, hslot, hread⟩
              · exact hlater hmem

theorem evolves_pushAll (s : Scene) (values : List (Slot × Value))
    (hvalues : ∀ entry ∈ values, s.frame.wiring.Writes entry.1) :
    s.Evolves (fun slot => ∃ entry ∈ values, slot = entry.1) ((pushAll values).run s).2 := by
  induction values generalizing s with
  | nil => exact .refl _ s
  | cons entry rest ih =>
      obtain ⟨slot, v⟩ := entry
      have hwrite := s.evolves_write slot [(some .append, v)] fun hs =>
        hs.declares (hvalues (slot, v) (by simp))
      refine evolves_bind (hwrite.mono fun _ h => ⟨(slot, v), by simp, h⟩) ?_
      intro written s₁ h₁
      rw [run_write] at h₁
      rw [h₁] at hwrite
      refine evolves_bind ((ih s₁ ?_).mono ?_) ?_
      · intro entry hentry
        rw [hwrite.wiring]
        exact hvalues entry (List.mem_cons_of_mem _ hentry)
      · rintro slot ⟨entry, hentry, h⟩
        exact ⟨entry, List.mem_cons_of_mem _ hentry, h⟩
      · intro others s₂ _
        split <;> exact .refl _ s₂

theorem evolves_feed (s : Scene) (names : List String) :
    s.Evolves (fun slot => ∃ name ∈ names, slot = .variable name) ((feed names).run s).2 := by
  induction names generalizing s with
  | nil => exact .refl _ s
  | cons name rest ih =>
      refine evolves_bind ((evolves_ingest s (.variable name)).mono fun _ h => ⟨name, by simp, h⟩)
        fun written s₁ _ => evolves_bind ((ih s₁).mono ?_) fun _ s₂ _ => .refl _ s₂
      rintro slot ⟨n, hn, h⟩
      exact ⟨n, List.mem_cons_of_mem _ hn, h⟩

/-- The slots that the completion of a call can write: those it pushes to, the variables it feeds,
and variables that read variables. -/
def SettlesInto (w : Wiring) (call : CallId) (slot : Slot) : Prop :=
  (∃ m ∈ w.accumulatingFrom call, Slot.of? m.target = some slot) ∨
    ∃ name, slot = .variable name ∧ (name ∈ w.fedBy call ∨ ∃ source, name ∈ w.readers source)

/-- The parts of a completion that has succeeded. -/
theorem settle_eq_ok {call : CallId} {s s' : Scene} {order : List String}
    (h : (settle call).run s = (.ok order, s')) :
    ∃ values pushed s₁ fed s₂ refreshed,
      pushes (s.complete call) (s.frame.wiring.accumulatingFrom call) = .ok values ∧
      (pushAll values).run (s.complete call) = (.ok pushed, s₁) ∧
      (feed (s₁.frame.wiring.fedBy call)).run s₁ = (.ok fed, s₂) ∧
      (propagate (pushed ++ fed)).run s₂ = (.ok refreshed, s') ∧
      order = pushed ++ fed ++ refreshed := by
  obtain ⟨_, s₀, hmark, h⟩ := run_bind_eq_ok h
  obtain rfl : s.complete call = s₀ := congrArg Prod.snd hmark
  obtain ⟨values, s₁, hvalues, h⟩ := run_bind_eq_ok h
  simp only [run_look, Prod.mk.injEq] at hvalues
  obtain ⟨hvalues, rfl⟩ := hvalues
  obtain ⟨pushed, s₂, hpushed, h⟩ := run_bind_eq_ok h
  obtain ⟨_, s₃, hget, h⟩ := run_bind_eq_ok h
  obtain ⟨hget, rfl⟩ := Prod.mk.inj hget
  cases hget
  obtain ⟨fed, s₄, hfed, h⟩ := run_bind_eq_ok h
  obtain ⟨refreshed, s₅, hrefreshed, h⟩ := run_bind_eq_ok h
  obtain ⟨horder, rfl⟩ := Prod.mk.inj h
  exact ⟨values, pushed, s₂, fed, s₄, refreshed, hvalues, hpushed, hfed, hrefreshed,
    (Except.ok.inj horder).symm⟩

/-- The pushes of a completion go to slots that mappings write. -/
theorem writes_of_pushes {s : Scene} {call : CallId} {values : List (Slot × Value)}
    (hvalues : pushes (s.complete call) (s.frame.wiring.accumulatingFrom call) = .ok values) :
    ∀ entry ∈ values, (s.complete call).frame.wiring.Writes entry.1 := by
  intro entry hentry
  obtain ⟨m, hm, hslot, -⟩ := mem_pushes hvalues hentry
  exact .inr ⟨m, (Wiring.mem_accumulatingFrom.1 hm).1, hslot⟩

/-- The pushes of a completion write only the targets of mappings that accumulate from its call. -/
theorem evolves_pushes {s : Scene} {call : CallId} {values : List (Slot × Value)}
    (hvalues : pushes (s.complete call) (s.frame.wiring.accumulatingFrom call) = .ok values) :
    (s.complete call).Evolves
      (fun slot => ∃ m ∈ s.frame.wiring.accumulatingFrom call, Slot.of? m.target = some slot)
      ((pushAll values).run (s.complete call)).2 := by
  refine (evolves_pushAll _ values (writes_of_pushes hvalues)).mono ?_
  rintro slot ⟨entry, hentry, rfl⟩
  obtain ⟨m, hm, hslot, -⟩ := mem_pushes hvalues hentry
  exact ⟨m, hm, hslot⟩

/-- **After the switch of authority, a completion writes only where it settles into.** -/
theorem evolves_settle (s : Scene) (call : CallId) :
    (s.complete call).Evolves (SettlesInto s.frame.wiring call) ((settle call).run s).2 := by
  have hmark : (modify fun s : Scene => { s with frame.wiring := s.frame.wiring.complete call } :
      Flow Unit).run s = (.ok (), s.complete call) := rfl
  rw [settle, run_bind, hmark]
  apply evolves_look_bind
  intro values hvalues
  have hpushAll : (s.complete call).Evolves (SettlesInto s.frame.wiring call)
      ((pushAll values).run (s.complete call)).2 := (evolves_pushes hvalues).mono fun _ => .inl
  refine evolves_bind hpushAll fun pushed s₁ h₁ => evolves_bind (.refl _ s₁) ?_
  intro s₂ s₃ h₂
  obtain ⟨rfl, rfl⟩ : s₁ = s₂ ∧ s₁ = s₃ := by simpa using h₂
  have hw₁ : s₁.frame.wiring = s.frame.wiring.complete call := by
    rw [h₁] at hpushAll
    exact hpushAll.wiring
  have hfeed : s₁.Evolves (SettlesInto s.frame.wiring call)
      ((feed (s₁.frame.wiring.fedBy call)).run s₁).2 := by
    refine (evolves_feed s₁ _).mono ?_
    rintro slot ⟨name, hname, rfl⟩
    exact .inr ⟨name, rfl, .inl (by simpa [hw₁] using hname)⟩
  refine evolves_bind hfeed fun fed s₂ h₂ => evolves_bind ?_ fun _ s₃ _ => .refl _ s₃
  have hw₂ : s₂.frame.wiring = s.frame.wiring.complete call := by
    rw [h₂] at hfeed
    exact hfeed.wiring.trans hw₁
  refine (evolves_propagate s₂ _).mono ?_
  rintro slot ⟨name, source, rfl, hname⟩
  exact .inr ⟨name, rfl, .inr ⟨source, by simpa [hw₂] using hname⟩⟩

theorem evolves_settle_of_eq {s s' : Scene} {call : CallId} {r : Except RunFault (List String)}
    (h : (settle call).run s = (r, s')) :
    (s.complete call).Evolves (SettlesInto s.frame.wiring call) s' := by
  have hevolves := evolves_settle s call
  rwa [h] at hevolves

/-! ## Results -/

/-- The results of a run are outputs of its boundary. -/
def IsResult (slot : Slot) : Prop := slot = .boundary .output ∨ slot = .boundary .selfOutput

theorem evolves_write_boundary (s : Scene) (port : Port) (writes : List (Option Strategy × Value)) :
    s.Evolves (· = .boundary port) ((write (.boundary port) writes).run s).2 :=
  s.evolves_write _ writes fun _ => s.frame.declares_boundary port

theorem evolves_finishOutput (s : Scene) :
    s.Evolves (· = .boundary .output) (finishOutput.run s).2 := by
  refine evolves_bind (evolves_ingest s _) ?_
  intro ingested s₁ _
  refine evolves_bind (.refl _ s₁) ?_
  intro _ s₂ _
  split
  · exact evolves_bind (evolves_write_boundary s₂ .output _) fun _ s₃ _ => .refl _ s₃
  · exact .refl _ s₂

theorem evolves_finishSelfOutput (s : Scene) :
    s.Evolves (· = .boundary .selfOutput) (finishSelfOutput.run s).2 := by
  refine evolves_bind (.refl _ s) ?_
  intro _ s₁ _
  split
  · exact .refl _ s₁
  · refine evolves_bind (evolves_ingest s₁ _) ?_
    intro _ s₂ _
    split
    · refine evolves_bind (.refl _ s₂) ?_
      intro _ s₃ _
      exact evolves_bind (evolves_write_boundary s₃ .selfOutput _) fun _ s₄ _ => .refl _ s₄
    · exact .refl _ s₂

/-- Is the slot without a terminal, or written? -/
def Settled (s : Scene) (slot : Slot) : Prop :=
  ∀ t, s.terminal? slot = some t → t.isWritten = true

theorem settled_write {s s' : Scene} {slot : Slot} {w : Option Strategy × Value} {b : Bool}
    (h : (write slot [w]).run s = (.ok b, s')) : Settled s' slot := by
  rw [run_write] at h
  rcases Scene.write_eq_ok h with ⟨hnil, -⟩ | ⟨-, -, t₀, t', ht₀, -, hwritten, rfl⟩
  · exact absurd hnil (by simp)
  · intro t ht
    rw [Scene.terminal?_put ht₀, if_pos rfl] at ht
    rwa [← Option.some.inj ht]

theorem settled_of_boundaryWritten? {s : Scene} {port : Port}
    (h : boundaryWritten? s port ≠ some false) : Settled s (.boundary port) := by
  intro t ht
  obtain ⟨ts, hts, hport⟩ := Option.bind_eq_some_iff.1 ht
  rw [boundaryWritten?, hts, Option.bind_some, hport, Option.map_some] at h
  cases hwritten : t.isWritten with
  | true => rfl
  | false => exact absurd (by rw [hwritten]) h

theorem settled_ingest {s s' : Scene} {slot : Slot} (h : (ingest slot).run s = (.ok true, s')) :
    Settled s' slot := by
  rcases ingest_eq_ok h with ⟨hb, -⟩ | ⟨-, t', ht', hwritten⟩
  · exact absurd hb (by simp)
  · intro t ht
    rwa [← Option.some.inj (ht'.symm.trans ht)]

theorem settled_finishOutput {s s' : Scene} (h : finishOutput.run s = (.ok (), s')) :
    Settled s' (.boundary .output) := by
  obtain ⟨ingested, s₁, hingest, h⟩ := run_bind_eq_ok h
  obtain ⟨_, s₂, hget, h⟩ := run_bind_eq_ok h
  obtain ⟨rfl, rfl⟩ : s₁ = _ ∧ s₁ = s₂ := by simpa using hget
  cases ingested with
  | true =>
      obtain ⟨-, rfl⟩ := Prod.mk.inj h
      exact settled_ingest hingest
  | false =>
      split at h
      · obtain ⟨_, s₃, hwrite, h⟩ := run_bind_eq_ok h
        obtain ⟨-, rfl⟩ := Prod.mk.inj h
        exact settled_write hwrite
      · rename_i hwritten
        obtain ⟨-, rfl⟩ := Prod.mk.inj h
        exact settled_of_boundaryWritten? (by simpa using hwritten)

theorem settled_finishSelfOutput {s s' : Scene} (h : finishSelfOutput.run s = (.ok (), s')) :
    Settled s' (.boundary .selfOutput) := by
  obtain ⟨_, s₁, hget, h⟩ := run_bind_eq_ok h
  obtain ⟨rfl, rfl⟩ : s = _ ∧ s = s₁ := by simpa using hget
  split at h
  · rename_i hnone
    obtain ⟨-, rfl⟩ := Prod.mk.inj h
    exact settled_of_boundaryWritten? (by rw [hnone]; simp)
  · rename_i written hwritten
    obtain ⟨ingested, s₂, hingest, hrest⟩ := run_bind_eq_ok h
    cases ingested with
    | true =>
        obtain ⟨-, rfl⟩ := Prod.mk.inj hrest
        exact settled_ingest hingest
    | false =>
        obtain rfl : s₂ = s := by simpa using ingest_eq_ok hingest
        cases written with
        | true =>
            obtain ⟨-, rfl⟩ := Prod.mk.inj hrest
            exact settled_of_boundaryWritten? (by simp [hwritten])
        | false =>
            obtain ⟨_, s₃, -, hrest⟩ := run_bind_eq_ok hrest
            obtain ⟨_, s₄, hwrite, hrest⟩ := run_bind_eq_ok hrest
            obtain ⟨-, rfl⟩ := Prod.mk.inj hrest
            exact settled_write hwrite

/-- **When the results are moved out, the outputs of the boundary are written.** -/
theorem settled_finish {s s' : Scene} (h : finish.run s = (.ok (), s')) {slot : Slot}
    (hslot : IsResult slot) : Settled s' slot := by
  obtain ⟨_, s₁, houtput, hself⟩ := run_bind_eq_ok h
  have hevolves := evolves_finishSelfOutput s₁
  rw [hself] at hevolves
  rcases hslot with rfl | rfl
  · intro t ht
    rw [hevolves.others _ (by simp)] at ht
    exact settled_finishOutput houtput t ht
  · exact settled_finishSelfOutput hself

/-- **Moving out the results writes the outputs of the boundary only.** -/
theorem evolves_finish (s : Scene) : s.Evolves IsResult (finish.run s).2 :=
  evolves_bind ((evolves_finishOutput s).mono fun _ h => .inl h) fun _ s₁ _ =>
    (evolves_finishSelfOutput s₁).mono fun _ h => .inr h

end Flow

end CallFlow
