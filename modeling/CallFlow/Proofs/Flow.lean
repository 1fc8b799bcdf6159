import CallFlow.Instance.Flow
import CallFlow.Proofs.Scene

/-!
# What the steps of data flow change

For every step that ingests slots or gives variables values this file says in which slots it may
write, and that it changes nothing else (`Flow.evolves_ingest`, `Flow.evolves_seed`).  Steps that
succeed are taken apart by lemmas such as `Flow.writeGroup_eq_ok` and `Flow.seed_eq_ok`.
-/

namespace CallFlow

namespace Flow

variable {α β : Type} {may : Slot → Prop}

/-! ## Running steps -/

@[simp] theorem run_look (f : Scene → Except RunFault α) (s : Scene) :
    (look f).run s = (f s, s) := rfl

@[simp] theorem run_pure (a : α) (s : Scene) : (pure a : Flow α).run s = (.ok a, s) := rfl

@[simp] theorem run_get (s : Scene) : (get : Flow Scene).run s = (.ok s, s) := rfl

@[simp] theorem run_write (slot : Slot) (writes : List (Option Strategy × Value)) (s : Scene) :
    (write slot writes).run s = s.write slot writes := rfl

theorem run_bind (x : Flow α) (f : α → Flow β) (s : Scene) :
    (x >>= f).run s =
      match x.run s with
      | (.ok a, s') => (f a).run s'
      | (.error fault, s') => (.error fault, s') := by
  change (ExceptT.bind x f) s = _
  simp only [ExceptT.bind, ExceptT.mk, run, bind, StateT.bind]
  rcases x s with ⟨r, s'⟩
  cases r <;> rfl

/-- A sequence of steps succeeds if each of them does. -/
theorem run_bind_eq_ok {x : Flow α} {f : α → Flow β} {s s' : Scene} {b : β}
    (h : (x >>= f).run s = (.ok b, s')) :
    ∃ a s₁, x.run s = (.ok a, s₁) ∧ (f a).run s₁ = (.ok b, s') := by
  rw [run_bind] at h
  split at h
  · rename_i a s₁ hx
    exact ⟨a, s₁, hx, h⟩
  · exact absurd h (by simp)

theorem evolves_bind {x : Flow α} {f : α → Flow β} {s : Scene}
    (hx : s.Evolves may (x.run s).2)
    (hf : ∀ a s₁, x.run s = (.ok a, s₁) → s₁.Evolves may ((f a).run s₁).2) :
    s.Evolves may ((x >>= f).run s).2 := by
  rw [run_bind]
  split
  · rename_i a s₁ h
    rw [h] at hx
    exact hx.trans (hf a s₁ h)
  · rename_i fault s₁ h
    rwa [h] at hx

theorem evolves_look_bind {g : Scene → Except RunFault α} {f : α → Flow β} {s : Scene}
    (hf : ∀ a, g s = .ok a → s.Evolves may ((f a).run s).2) :
    s.Evolves may ((look g >>= f).run s).2 := by
  refine evolves_bind (.refl _ s) ?_
  intro a s₁ h
  simp only [run_look, Prod.mk.injEq] at h
  obtain ⟨ha, rfl⟩ := h
  exact hf a ha

/-! ## Ingestion -/

theorem run_writeGroup (slot : Slot) (group : List Mapping) (s : Scene) :
    (writeGroup slot group).run s =
      match s.readGroup group with
      | .ok writes => s.write slot writes
      | .error fault => (.error fault, s) := by
  unfold writeGroup
  rw [run_bind, run_look]
  cases s.readGroup group <;> rfl

/-- A group of one direct mapping reads what the mapping reads. -/
theorem readGroup_direct {s : Scene} {m : Mapping} (hdirect : m.isDirect = true)
    {writes : List (Option Strategy × Value)} (h : s.readGroup [m] = .ok writes) :
    ∃ v, s.read m = .ok v ∧ writes = (v.map fun v => (none, v)).toList := by
  obtain ⟨v, hread, h⟩ := bind_eq_ok h
  obtain ⟨others, hothers, h⟩ := bind_eq_ok h
  cases hothers
  have hstrategy : m.targetStrategy = none := Option.isNone_iff_eq_none.1 hdirect
  rw [hstrategy] at h
  refine ⟨v, hread, ?_⟩
  rw [← Except.ok.inj h, List.append_nil]

/-- A group of one direct mapping writes what the mapping reads, if its source is written. -/
theorem writeGroup_eq_ok {s s' : Scene} {slot : Slot} {m : Mapping} {b : Bool}
    (hdirect : m.isDirect = true) (h : (writeGroup slot [m]).run s = (.ok b, s')) :
    (s.read m = .ok none ∧ b = false ∧ s' = s) ∨
    ∃ v, s.read m = .ok (some v) ∧ b = true ∧
      (s'.terminal? slot).bind Terminal.peek = some v := by
  rw [run_writeGroup] at h
  split at h
  · rename_i writes hreads
    obtain ⟨value, hread, rfl⟩ := readGroup_direct hdirect hreads
    cases value with
    | none =>
        obtain ⟨hb, hs⟩ := Prod.mk.inj h
        exact .inl ⟨hread, (Except.ok.inj hb).symm, hs.symm⟩
    | some v =>
        rcases Scene.write_eq_ok h with ⟨hnil, -⟩ | ⟨-, hb, t, t', ht, hwrite, -, rfl⟩
        · exact absurd hnil (by simp)
        · refine .inr ⟨v, hread, hb, ?_⟩
          rw [Scene.terminal?_put ht, if_pos rfl, Option.bind_some]
          exact Terminal.peek_writeAll_one hwrite
  · exact absurd (Prod.mk.inj h).1 (by simp)

theorem run_ingest (slot : Slot) (s : Scene) :
    (ingest slot).run s =
      match s.frame.wiring.authoritative slot with
      | .ok (some group) => (writeGroup slot group).run s
      | .ok none => (.ok false, s)
      | .error reason => (.error (.ambiguous s.frame.wiring.composition reason), s) := by
  unfold ingest
  rw [run_bind, run_look]
  cases s.frame.wiring.authoritative slot with
  | error reason => rfl
  | ok group => cases group <;> rfl

/-- Writing the authoritative group of a slot writes that slot only. -/
theorem evolves_writeGroup {s : Scene} {slot : Slot} {group : List Mapping}
    (hgroup : s.frame.wiring.current? slot = some group) :
    s.Evolves (· = slot) ((writeGroup slot group).run s).2 := by
  rw [run_writeGroup]
  split
  · exact s.evolves_write slot _ fun hs => hs.declares (Wiring.writes_of_current? hgroup)
  · exact .refl _ s

/-- **Ingesting a slot writes that slot only.** -/
theorem evolves_ingest (s : Scene) (slot : Slot) :
    s.Evolves (· = slot) ((ingest slot).run s).2 := by
  rw [run_ingest]
  split
  · rename_i group h
    exact evolves_writeGroup (Wiring.current?_of_authoritative h)
  · exact .refl _ s
  · exact .refl _ s

/-- An ingestion that succeeds has found no group, or has read the authoritative one. -/
theorem ingest_eq_writeGroup {s s' : Scene} {slot : Slot} {b : Bool}
    (h : (ingest slot).run s = (.ok b, s')) :
    (b = false ∧ s' = s) ∨ ∃ group, s.frame.wiring.current? slot = some group ∧
      (writeGroup slot group).run s = (.ok b, s') := by
  rw [run_ingest] at h
  split at h
  · rename_i group hgroup
    exact .inr ⟨group, Wiring.current?_of_authoritative hgroup, h⟩
  · obtain ⟨hb, rfl⟩ := Prod.mk.inj h
    exact .inl ⟨(Except.ok.inj hb).symm, rfl⟩
  · exact absurd h (by simp)

/-- A group that was read and has written nothing has changed nothing. -/
theorem eq_of_writeGroup_false {s s' : Scene} {slot : Slot} {group : List Mapping}
    (h : (writeGroup slot group).run s = (.ok false, s')) : s' = s := by
  rw [run_writeGroup] at h
  split at h
  · rcases Scene.write_eq_ok h with ⟨-, -, rfl⟩ | ⟨-, hb, -⟩
    · rfl
    · exact absurd hb (by simp)
  · exact absurd h (by simp)

/-- An ingestion that succeeds says whether it has written the slot. -/
theorem ingest_eq_ok {s s' : Scene} {slot : Slot} {b : Bool}
    (h : (ingest slot).run s = (.ok b, s')) :
    (b = false ∧ s' = s) ∨ (b = true ∧ ∃ t, s'.terminal? slot = some t ∧ t.isWritten = true) := by
  rw [run_ingest] at h
  split at h
  · rw [run_writeGroup] at h
    split at h
    · rcases Scene.write_eq_ok h with ⟨-, hb, hs⟩ | ⟨-, hb, t, t', ht, -, hwritten, rfl⟩
      · exact .inl ⟨hb, hs⟩
      · exact .inr ⟨hb, t', by rw [Scene.terminal?_put ht, if_pos rfl], hwritten⟩
    · exact absurd h (by simp)
  · obtain ⟨hb, rfl⟩ := Prod.mk.inj h
    exact .inl ⟨(Except.ok.inj hb).symm, rfl⟩
  · exact absurd h (by simp)

theorem evolves_ingestAll (s : Scene) (slots : List Slot) :
    s.Evolves (· ∈ slots) ((ingestAll slots).run s).2 := by
  induction slots generalizing s with
  | nil => exact .refl _ s
  | cons slot rest ih =>
      refine evolves_bind ((evolves_ingest s slot).mono fun _ h => by simp [h]) ?_
      intro _ s₁ _
      exact (ih s₁).mono fun _ h => List.mem_cons_of_mem _ h

/-! ## Variables -/

/-- What one round of a refreshing does: the first pending variable is passed over if it was
refreshed or has no authoritative group, and re-read from that group otherwise. -/
theorem run_refresh_cons (fuel : Nat) (name : String)
    (pending refreshed : List String) (s : Scene) :
    (refresh (fuel + 1) (name :: pending) refreshed).run s =
      if refreshed.contains name then (refresh fuel pending refreshed).run s
      else
        match s.frame.wiring.current? (.variable name) with
        | none => (refresh fuel pending (name :: refreshed)).run s
        | some group =>
            (writeGroup (.variable name) group >>= fun written => do
              let more := if written then s.frame.wiring.readers name else []
              let others ← refresh fuel (pending ++ more) (name :: refreshed)
              return if written then name :: others else others).run s := by
  rw [refresh]
  split
  · rfl
  · rw [run_bind, run_get]
    simp only []
    cases s.frame.wiring.current? (.variable name) <;> rfl

/-- Is the slot a variable that reads a variable? -/
def ReadsVariable (w : Wiring) (slot : Slot) : Prop :=
  ∃ name source, slot = .variable name ∧ name ∈ w.readers source

theorem evolves_refresh (fuel : Nat) (s : Scene) (pending refreshed : List String)
    (hpending : ∀ name ∈ pending, ∃ source, name ∈ s.frame.wiring.readers source) :
    s.Evolves (ReadsVariable s.frame.wiring) ((refresh fuel pending refreshed).run s).2 := by
  induction fuel generalizing s pending refreshed with
  | zero => exact .refl _ s
  | succ fuel ih =>
    cases pending with
    | nil => exact .refl _ s
    | cons name pending =>
      obtain ⟨source, hname⟩ := hpending name (by simp)
      have hrest : ∀ n ∈ pending, ∃ source, n ∈ s.frame.wiring.readers source :=
        fun n hn => hpending n (List.mem_cons_of_mem _ hn)
      rw [run_refresh_cons]
      split
      · exact ih s pending refreshed hrest
      · split
        · exact ih s pending (name :: refreshed) hrest
        · rename_i group hgroup
          have hwrite := evolves_writeGroup hgroup
          refine evolves_bind (hwrite.mono fun _ h => ⟨name, source, h, hname⟩) ?_
          intro written s₁ h₁
          rw [h₁] at hwrite
          have hothers := ih s₁ (pending ++ if written then s.frame.wiring.readers name else [])
            (name :: refreshed) fun n hn => by
              rw [hwrite.wiring]
              rcases List.mem_append.1 hn with hn | hn
              · exact hrest n hn
              · cases written with
                | false => exact absurd hn (by simp)
                | true => exact ⟨name, hn⟩
          rw [hwrite.wiring] at hothers
          exact evolves_bind hothers fun _ s₂ _ => .refl _ s₂

/-- **A propagation writes variables that read variables**, whatever has changed. -/
theorem evolves_propagate (s : Scene) (changed : List String) :
    s.Evolves (ReadsVariable s.frame.wiring) ((propagate changed).run s).2 := by
  refine evolves_bind (.refl _ s) ?_
  intro a s₁ h
  simp only [run_get, Prod.mk.injEq, Except.ok.injEq] at h
  obtain ⟨rfl, rfl⟩ := h
  refine evolves_refresh _ s _ _ ?_
  intro name hname
  obtain ⟨source, -, hname⟩ := List.mem_flatMap.1 hname
  exact ⟨source, hname⟩

/-- Seeds are read from the authoritative groups of variables that are not bound. -/
theorem mem_seeds {s : Scene} {names : List String}
    {l : List (String × List (Option Strategy × Value))} (h : seeds s names = .ok l)
    {name : String} {writes : List (Option Strategy × Value)} (hmem : (name, writes) ∈ l) :
    name ∈ names ∧ (Assoc.find? s.frame.vars name).any Terminal.isFresh = false ∧
      ∃ group, s.frame.wiring.current? (.variable name) = some group ∧
        s.readGroup group = .ok writes := by
  induction names generalizing l with
  | nil =>
      cases h
      exact absurd hmem (by simp)
  | cons first rest ih =>
      rw [seeds] at h
      split at h
      · rename_i group hbound hgroup
        obtain ⟨ws, hread, h⟩ := bind_eq_ok h
        obtain ⟨others, hrest, h⟩ := bind_eq_ok h
        obtain rfl := Except.ok.inj h
        rcases List.mem_cons.1 hmem with heq | hmem
        · obtain ⟨rfl, rfl⟩ := Prod.mk.inj heq
          exact ⟨by simp, hbound, group, hgroup, hread⟩
        · obtain ⟨hn, hrest⟩ := ih hrest hmem
          exact ⟨List.mem_cons_of_mem _ hn, hrest⟩
      · obtain ⟨hn, hrest⟩ := ih h hmem
        exact ⟨List.mem_cons_of_mem _ hn, hrest⟩

/-- Every variable that is not bound and has an authoritative group is given a seed. -/
theorem exists_seed {s : Scene} {names : List String}
    {l : List (String × List (Option Strategy × Value))} (h : seeds s names = .ok l) {name : String}
    (hname : name ∈ names) (hbound : (Assoc.find? s.frame.vars name).any Terminal.isFresh = false)
    {group : List Mapping} (hgroup : s.frame.wiring.current? (.variable name) = some group) :
    ∃ writes, (name, writes) ∈ l := by
  induction names generalizing l with
  | nil => exact absurd hname (by simp)
  | cons first rest ih =>
      rw [seeds] at h
      split at h
      · obtain ⟨ws, -, h⟩ := bind_eq_ok h
        obtain ⟨others, hrest, h⟩ := bind_eq_ok h
        obtain rfl := Except.ok.inj h
        rcases List.mem_cons.1 hname with rfl | hname
        · exact ⟨ws, by simp⟩
        · obtain ⟨writes, hmem⟩ := ih hrest hname
          exact ⟨writes, List.mem_cons_of_mem _ hmem⟩
      · rename_i hother
        rcases List.mem_cons.1 hname with rfl | hname
        · exact absurd hgroup (hother group hbound)
        · exact ih h hname

theorem evolves_plant (s : Scene) (l : List (String × List (Option Strategy × Value)))
    (hl : ∀ entry ∈ l, s.frame.wiring.Writes (.variable entry.1)) :
    s.Evolves (fun slot => ∃ entry ∈ l, slot = .variable entry.1) ((plant l).run s).2 := by
  induction l generalizing s with
  | nil => exact .refl _ s
  | cons entry rest ih =>
      obtain ⟨name, writes⟩ := entry
      have hwrite := s.evolves_write (.variable name) writes fun hs =>
        hs.declares (hl (name, writes) (by simp))
      refine evolves_bind (hwrite.mono fun _ h => ⟨(name, writes), by simp, h⟩) ?_
      intro written s₁ h₁
      rw [run_write] at h₁
      rw [h₁] at hwrite
      refine evolves_bind ((ih s₁ ?_).mono ?_) fun _ s₂ _ => .refl _ s₂
      · intro entry hentry
        rw [hwrite.wiring]
        exact hl entry (List.mem_cons_of_mem _ hentry)
      · rintro slot ⟨entry, hentry, h⟩
        exact ⟨entry, List.mem_cons_of_mem _ hentry, h⟩

/-- Planting seeds writes only the variables that they are for. -/
theorem evolves_plant_of_seeds {s : Scene} {names : List String}
    {l : List (String × List (Option Strategy × Value))} (hl : seeds s names = .ok l) :
    s.Evolves (fun slot => ∃ entry ∈ l, slot = .variable entry.1) ((plant l).run s).2 := by
  refine evolves_plant s l ?_
  intro entry hentry
  obtain ⟨-, -, group, hgroup, -⟩ := mem_seeds hl hentry
  exact Wiring.writes_of_current? hgroup

/-- The parts of a seeding that has succeeded. -/
theorem seed_eq_ok {s s' : Scene} (h : seed.run s = (.ok (), s')) :
    ∃ l planted s₁ refreshed, seeds s s.frame.wiring.writtenVariables = .ok l ∧
      (plant l).run s = (.ok planted, s₁) ∧ (propagate planted).run s₁ = (.ok refreshed, s') := by
  obtain ⟨l, s₁, hl, h⟩ := run_bind_eq_ok h
  simp only [run_look, Prod.mk.injEq] at hl
  obtain ⟨hl, rfl⟩ := hl
  obtain ⟨planted, s₁, hplant, h⟩ := run_bind_eq_ok h
  obtain ⟨refreshed, s₂, hpropagate, h⟩ := run_bind_eq_ok h
  obtain ⟨-, rfl⟩ := Prod.mk.inj h
  exact ⟨l, planted, s₁, refreshed, hl, hplant, hpropagate⟩

/-- A variable shows its seed, if that is one value, once all seeds are planted. -/
theorem plant_shows {s s' : Scene} {l : List (String × List (Option Strategy × Value))}
    {planted : List String} (h : (plant l).run s = (.ok planted, s')) {name : String} {v : Value}
    (hseed : ∀ writes, (name, writes) ∈ l → writes = [(none, v)])
    (hname : (∃ writes, (name, writes) ∈ l) ∨
      (s.terminal? (.variable name)).bind Terminal.peek = some v) :
    (s'.terminal? (.variable name)).bind Terminal.peek = some v := by
  induction l generalizing s planted with
  | nil =>
      obtain ⟨-, rfl⟩ := Prod.mk.inj h
      exact hname.resolve_left fun ⟨_, hmem⟩ => absurd hmem (by simp)
  | cons entry rest ih =>
      obtain ⟨first, writes⟩ := entry
      obtain ⟨written, s₁, hwrite, h⟩ := run_bind_eq_ok h
      obtain ⟨others, s₂, hrest, h⟩ := run_bind_eq_ok h
      obtain ⟨-, rfl⟩ := Prod.mk.inj h
      refine ih hrest (fun ws hws => hseed ws (List.mem_cons_of_mem _ hws)) ?_
      rw [run_write] at hwrite
      by_cases hfirst : first = name
      · subst hfirst
        rw [hseed writes (by simp)] at hwrite
        rcases Scene.write_eq_ok hwrite with ⟨hnil, -⟩ | ⟨-, -, t, t', ht, hone, -, rfl⟩
        · exact absurd hnil (by simp)
        · exact .inr (by
            rw [Scene.terminal?_put ht, if_pos rfl, Option.bind_some]
            exact Terminal.peek_writeAll_one hone)
      · rw [Scene.terminal?_of_write hwrite (by simpa using hfirst)]
        apply hname.imp_left
        rintro ⟨ws, hws⟩
        rcases List.mem_cons.1 hws with heq | hws
        · exact absurd (congrArg Prod.fst heq).symm hfirst
        · exact ⟨ws, hws⟩

/-- **Seeding writes variables only.** -/
theorem evolves_seed (s : Scene) :
    s.Evolves (fun slot => ∃ name, slot = .variable name) (seed.run s).2 := by
  refine evolves_look_bind fun l hl => evolves_bind ?_ ?_
  · refine (evolves_plant_of_seeds hl).mono ?_
    intro _ h
    obtain ⟨entry, -, rfl⟩ := h
    exact ⟨entry.1, rfl⟩
  · intro planted s₁ h₁
    refine evolves_bind ?_ fun _ s₂ _ => .refl _ s₂
    refine (evolves_propagate s₁ planted).mono ?_
    intro _ h
    obtain ⟨name, -, rfl, -⟩ := h
    exact ⟨name, rfl⟩

end Flow

end CallFlow
