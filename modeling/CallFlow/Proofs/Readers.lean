import CallFlow.Proofs.Authority
import CallFlow.Proofs.Places
import CallFlow.Proofs.Settle

/-!
# Variables that read variables

A variable can have a place for each of several variables that it reads.  When the completion of a
call writes one of these, the variable is re-read, but only once, however many of them are
written: in the round in which its name first comes up.  So it shows what its sources have in the
end if none of them is written after that round, and what a source had before the propagation if
that source is (`Flow.Follows`).  The first is so where all variables that change are equally far
away (`Flow.follows_of_refreshes`).

The main statement is `Walk.follows_of_executes`; in the run of its example a source is written
too late.
-/

namespace CallFlow

namespace Mapping

/-- No mapping appends, so that each has its own place whatever is there. -/
def Fixed (group : List Mapping) : Prop := some .append ∉ strategies group

instance (group : List Mapping) : Decidable (Fixed group) := inferInstanceAs (Decidable (¬ _))

end Mapping

/-! ## Reading a group into its places -/

namespace Scene

/-- The variable has the value at the place to which the mapping writes. -/
def Holds (s : Scene) (name : String) (m : Mapping) (v : Value) : Prop :=
  ∃ t, s.terminal? (.variable name) = some t ∧ t.cell.contents.at? (.of 0 m.targetStrategy) = some v

variable {s s' : Scene} {name : String} {m : Mapping} {v : Value}

theorem Holds.of_terminal?_eq (h : s.Holds name m v)
    (heq : s'.terminal? (.variable name) = s.terminal? (.variable name)) : s'.Holds name m v := by
  obtain ⟨t, ht, hv⟩ := h
  exact ⟨t, heq.trans ht, hv⟩

/-- The place of a direct mapping is all that the variable shows. -/
theorem Holds.peek_eq (h : s.Holds name m v) (hdirect : m.isDirect = true) :
    s.peek (.variable name) = some v := by
  obtain ⟨t, ht, hv⟩ := h
  have hstrategy : m.targetStrategy = none := Option.isNone_iff_eq_none.1 hdirect
  rw [hstrategy] at hv
  rw [peek_variable, ht, Option.bind_some, Terminal.peek, Cell.peek]
  cases hc : t.cell.contents with
  | scalar u => simpa [hc, Spot.of, Contents.at?] using hv
  | empty | list _ | map _ => simp [hc, Spot.of, Contents.at?] at hv

variable {group : List Mapping} {writes : List (Option Strategy × Value)}

/-- A variable into which there was something to write is written. -/
theorem isSome_peek_of_write (h : s.write (.variable name) writes = (.ok true, s')) :
    (s'.peek (.variable name)).isSome = true := by
  rcases write_eq_ok h with ⟨-, hb, -⟩ | ⟨-, -, t, t', ht, -, hwritten, rfl⟩
  · exact absurd hb (by simp)
  · rw [peek_variable, terminal?_put ht, if_pos rfl, Option.bind_some, Terminal.isSome_peek]
    exact hwritten

/-- What a mapping of a group reads is among the writes of the group. -/
theorem mem_readGroup (h : s.readGroup group = .ok writes) (hm : m ∈ group) :
    ∃ u, s.read m = .ok u ∧ ∀ v, u = some v → (m.targetStrategy, v) ∈ writes := by
  induction group generalizing writes with
  | nil => exact absurd hm (by simp)
  | cons first rest ih =>
      obtain ⟨u, hu, h⟩ := bind_eq_ok h
      obtain ⟨others, hrest, h⟩ := bind_eq_ok h
      obtain rfl := Except.ok.inj h
      rcases List.mem_cons.1 hm with rfl | hm
      · exact ⟨u, hu, by rintro v rfl; simp⟩
      · obtain ⟨u', hu', hmem⟩ := ih hrest hm
        exact ⟨u', hu', fun v hv => List.mem_append_right _ (hmem v hv)⟩

/-- The writes of a group are by the strategies of its mappings, in their order. -/
theorem sublist_readGroup (h : s.readGroup group = .ok writes) :
    (writes.map (·.1)).Sublist (Mapping.strategies group) := by
  induction group generalizing writes with
  | nil =>
      cases h
      exact .slnil
  | cons first rest ih =>
      obtain ⟨u, -, h⟩ := bind_eq_ok h
      obtain ⟨others, hrest, h⟩ := bind_eq_ok h
      obtain rfl := Except.ok.inj h
      cases u with
      | none => exact (ih hrest).cons _
      | some v => exact (ih hrest).cons_cons _

end Scene

namespace Flow

/-- **After a group was written, what a mapping has read is at its place**, if the group is without
appends and its places lie side by side. -/
theorem holds_of_writeGroup {s s' : Scene} {name : String} {group : List Mapping} {b : Bool}
    (hfixed : Mapping.Fixed group) (hlossless : Mapping.Lossless group)
    (h : (writeGroup (.variable name) group).run s = (.ok b, s')) {m : Mapping}
    (hm : m ∈ group) {v : Value}
    (hread : s.read m = .ok (some v)) : s'.Holds name m v := by
  rw [run_writeGroup] at h
  split at h
  · rename_i writes hwrites
    obtain ⟨u, hu, hmem⟩ := Scene.mem_readGroup hwrites hm
    have hwrite := hmem v (Except.ok.inj (hu.symm.trans hread))
    rcases Scene.write_eq_ok h with ⟨rfl, -⟩ | ⟨hne, -, t, t', ht, hall, -, rfl⟩
    · exact absurd hwrite (by simp)
    · refine ⟨t', by rw [Scene.terminal?_put ht, if_pos rfl], ?_⟩
      have hsublist := Scene.sublist_readGroup hwrites
      have hspots : t.cell.base.spotsOf writes = (writes.map (·.1)).map (.of 0) :=
        Contents.spotsOf_of_fixed fun hc => hfixed (hsublist.subset hc)
      have hbeside : (t.cell.base.spotsOf writes).Pairwise Spot.Beside := by
        rw [Mapping.Lossless, Spot.ofAll_of_fixed hfixed] at hlossless
        rw [hspots]
        exact hlossless.sublist (hsublist.map _)
      have hplaces := Contents.at?_after hbeside
      rw [hspots, List.map_map, List.forall₂_map_left_iff, List.forall₂_same] at hplaces
      rw [Terminal.contents_writeAll hne hall]
      exact hplaces _ hwrite
  · exact absurd h (by simp)

end Flow

namespace Rereads

variable {order : List String} {s s' : Scene}

/-- The variables that are re-read are written afterwards. -/
theorem written (h : Rereads order s s') {name : String} (hname : name ∈ order) :
    (s'.peek (.variable name)).isSome = true := by
  induction h with
  | nil _ => exact absurd hname (by simp)
  | @cons first group rest s s₁ s' _ hfirst hothers ih =>
      rcases List.mem_cons.1 hname with rfl | hname
      · refine hothers.evolves.written _ ?_
        rw [Flow.run_writeGroup] at hfirst
        split at hfirst
        · exact Scene.isSome_peek_of_write hfirst
        · exact absurd hfirst (by simp)
      · exact ih hname

/-- Other variables keep their terminals. -/
theorem terminal?_eq (h : Rereads order s s') {name : String} (hname : name ∉ order) :
    s'.terminal? (.variable name) = s.terminal? (.variable name) := by
  refine h.evolves.others _ ?_
  rintro ⟨n, hn, heq⟩
  exact hname (Slot.variable.inj heq ▸ hn)

/-- A mapping from another variable reads the same. -/
theorem read_eq (h : Rereads order s s') {m : Mapping} {source : String}
    (hsource : m.source = .variable source) (hmem : source ∉ order) : s'.read m = s.read m := by
  refine h.evolves.read_eq ?_
  rintro slot hslot ⟨n, hn, heq⟩
  rw [hsource] at hslot
  obtain rfl : source = n := Slot.variable.inj ((Option.some.inj hslot).trans heq)
  exact hmem hn

end Rereads

/-! ## Rounds of readers -/

namespace Flow

/-- What becomes of a variable that reads another one, where the rounds lead from the first scene to
the second and either variable was written before them or in one of them. -/
structure Follows (s s' : Scene) (changed : List String) (rounds : List Round)
    (name source : String)
    (m : Mapping) : Prop where
  /-- The variable has one round. -/
  once : ∃ before b after, rounds = before ++ ⟨name, b⟩ :: after ∧
    name ∉ Round.names before ∧ name ∉ Round.names after
  /-- If its source is not written after that, the variable holds what the mapping reads in the
  end. -/
  fresh :
      ∀ before b after, rounds = before ++ ⟨name, b⟩ :: after → source ∉ Round.writtenNames after →
    ∃ v, s'.read m = .ok (some v) ∧ s'.Holds name m v
  /-- If its source is written after that, the variable holds what the mapping read in the
  beginning. -/
  stale :
      ∀ before b after, rounds = before ++ ⟨name, b⟩ :: after → source ∈ Round.writtenNames after →
    ∀ v, s.read m = .ok (some v) → s'.Holds name m v
  /-- Where each variable is a level below those that it reads, and all that have changed are on one
  level, the source is not written after that. -/
  level : ∀ (level : String → Nat) (k : Nat),
    (∀ a, ∀ b ∈ s.frame.wiring.readers a, level b = level a + 1) → (∀ n ∈ changed, level n = k) →
    ∀ before b after, rounds = before ++ ⟨name, b⟩ :: after → source ∉ Round.writtenNames after

variable {s s' : Scene} {changed : List String} {rounds : List Round} {name source : String}
  {group : List Mapping} {m : Mapping}

theorem mem_readers (hb : s.frame.wiring.Built)
    (hgroup : s.frame.wiring.current? (.variable name) = some group) (hm : m ∈ group)
    (hsource : m.source = .variable source) : name ∈ s.frame.wiring.readers source := by
  rw [hb.current?_eq] at hgroup
  obtain ⟨priority, -, hsome⟩ := Option.bind_eq_some_iff.1 hgroup
  split at hsome
  · exact absurd hsome (by simp)
  · obtain rfl := Option.some.inj hsome
    exact hb.mem_readers.2 ⟨priority, m, hm, Mapping.readsVariable_iff.2 hsource⟩

/-- Of the rounds around one of them, none is of its variable, and no variable has rounds on both
sides. -/
theorem Refreshes.apart {pending refreshed : List String}
    (h : Refreshes pending refreshed rounds s s')
    {before after : List Round} {b : Bool} (hrounds : rounds = before ++ ⟨name, b⟩ :: after) :
    name ∉ Round.names before ∧ name ∉ Round.names after ∧
      ∀ n ∈ Round.names before, n ∉ Round.names after := by
  have hnodup := h.nodup.1
  rw [hrounds, Round.names, List.map_append, List.map_cons] at hnodup
  obtain ⟨-, hrest, hapart⟩ := List.nodup_append.1 hnodup
  refine ⟨fun hc => hapart _ hc _ (by simp) rfl, (List.nodup_cons.1 hrest).1, ?_⟩
  exact fun n hn hc => hapart n hn n (List.mem_cons_of_mem _ hc) rfl

/-- A reader in its round: what its mapping reads then is at its place in the end. -/
theorem exists_turn (h : Refreshes (changed.flatMap s.frame.wiring.readers) [] rounds s s')
    (hgroup : s.frame.wiring.current? (.variable name) = some group)
    (hfixed : Mapping.Fixed group) (hlossless : Mapping.Lossless group) (hm : m ∈ group)
    {before after : List Round} {b : Bool} (hrounds : rounds = before ++ ⟨name, b⟩ :: after) :
    ∃ s₁ s₂, Rereads (Round.writtenNames before) s s₁ ∧ s₁.Evolves (· = .variable name) s₂ ∧
      Rereads (Round.writtenNames after) s₂ s' ∧ ∃ u, s₁.read m = .ok u ∧
      ∀ v, u = some v → s'.Holds name m v := by
  obtain ⟨s₁, s₂, g, hbefore, hcurrent, hround, hafter⟩ := h.split hrounds
  rw [hbefore.evolves.wiring, hgroup] at hcurrent
  obtain rfl := Option.some.inj hcurrent
  have hlater : name ∉ Round.names after := (h.apart hrounds).2.1
  have hturn : s₁.Evolves (· = .variable name) s₂ :=
    Rereads.evolves_first (hbefore.evolves.wiring ▸ hgroup) hround
  refine ⟨s₁, s₂, hbefore, hturn, hafter, ?_⟩
  have hread : ∃ u, s₁.read m = .ok u := by
    rw [run_writeGroup] at hround
    split at hround
    · rename_i writes hwrites
      obtain ⟨u, hu, -⟩ := Scene.mem_readGroup hwrites hm
      exact ⟨u, hu⟩
    · exact absurd hround (by simp)
  obtain ⟨u, hu⟩ := hread
  refine ⟨u, hu, ?_⟩
  rintro v rfl
  refine (holds_of_writeGroup hfixed hlossless hround hm hu).of_terminal?_eq ?_
  exact hafter.terminal?_eq fun hc => hlater (Round.mem_names_of_written hc)

/-- A variable that was written before the rounds or in one of them, and not after the round of
another, is written when that round comes. -/
theorem isSome_peek_before_turn {before after : List Round} {b : Bool} {s₁ : Scene}
    (hrounds : rounds = before ++ ⟨name, b⟩ :: after)
    (hbefore : Rereads (Round.writtenNames before) s s₁)
    (hchanged : ∀ n ∈ changed, (s.peek (.variable n)).isSome = true) (hne : source ≠ name)
    (hwritten : source ∈ changed ++ Round.writtenNames rounds)
    (hafter : source ∉ Round.writtenNames after) : (s₁.peek (.variable source)).isSome = true := by
  rcases List.mem_append.1 hwritten with hin | hin
  · exact hbefore.evolves.written _ (hchanged _ hin)
  · have hround := Round.mem_writtenNames.1 hin
    rw [hrounds] at hround
    rcases List.mem_append.1 hround with hearlier | hlater
    · exact hbefore.written (Round.mem_writtenNames.2 hearlier)
    · rcases List.mem_cons.1 hlater with heq | hlater
      · exact absurd (congrArg Round.name heq) hne
      · exact absurd (Round.mem_writtenNames.2 hlater) hafter

/-- Where the rounds go down level by level, a source is not written after the round of its
reader. -/
theorem not_written_after_turn (h : Refreshes (changed.flatMap s.frame.wiring.readers)
    [] rounds s s')
    (hreader : name ∈ s.frame.wiring.readers source) {level : String → Nat} {k : Nat}
    (hlevel : ∀ a, ∀ b ∈ s.frame.wiring.readers a, level b = level a + 1)
    (hchanged : ∀ n ∈ changed, level n = k) {before after : List Round} {b : Bool}
    (hrounds : rounds = before ++ ⟨name, b⟩ :: after) : source ∉ Round.writtenNames after := by
  intro hafter
  have hpending : ∀ n ∈ changed.flatMap s.frame.wiring.readers, level n = k + 1 := by
    intro n hn
    obtain ⟨a, ha, hn⟩ := List.mem_flatMap.1 hn
    rw [hlevel a n hn, hchanged a ha]
  have hsorted := (h.sorted hlevel (k := k + 1)
    (List.pairwise_of_forall_mem_list fun a ha b hb =>
      Nat.le_of_eq ((hpending a ha).trans (hpending b hb).symm))
    fun n hn => ⟨Nat.le_of_eq (hpending n hn).symm, by rw [hpending n hn]; exact Nat.le_succ _⟩).1
  rw [hrounds] at hsorted
  have hle : level name ≤ level source :=
    (List.pairwise_cons.1 (List.pairwise_append.1 hsorted).2.1).1
    ⟨source, true⟩ (Round.mem_writtenNames.1 hafter)
  have hstep := hlevel source name hreader
  omega

/-- **What becomes of readers in a propagation.** -/
theorem follows_of_refreshes (hb : s.frame.wiring.Built)
    (h : Refreshes (changed.flatMap s.frame.wiring.readers) [] rounds s s')
    (hchanged : ∀ n ∈ changed, (s.peek (.variable n)).isSome = true)
    (hgroup : s.frame.wiring.current? (.variable name) = some group)
    (hfixed : Mapping.Fixed group) (hlossless : Mapping.Lossless group) (hm : m ∈ group)
    (hsource : m.source = .variable source) (hne : source ≠ name)
    (hwritten : source ∈ changed ++ Round.writtenNames rounds) :
    Follows s s' changed rounds name source m := by
  have hreader := mem_readers hb hgroup hm hsource
  refine ⟨?_, ?_, ?_,
    fun level k hlevel hchanged _ _ _ => not_written_after_turn h hreader hlevel hchanged⟩
  · have hname : name ∈ Round.names rounds := by
      refine h.mem_names hgroup (by simp) ?_
      rcases List.mem_append.1 hwritten with hsource | hsource
      · exact .inl (List.mem_flatMap.2 ⟨source, hsource, hreader⟩)
      · exact .inr ⟨source, hsource, hreader⟩
    obtain ⟨⟨n, b⟩, hr, rfl⟩ := List.mem_map.1 hname
    obtain ⟨before, after, hrounds⟩ := List.append_of_mem hr
    obtain ⟨hearlier, hlater, -⟩ := h.apart hrounds
    exact ⟨before, b, after, hrounds, hearlier, hlater⟩
  · intro before b after hrounds hafter
    obtain ⟨s₁, s₂, hbefore, hturn, hrest, u, hu, hholds⟩ :=
      exists_turn h hgroup hfixed hlossless hm hrounds
    have hsome := isSome_peek_before_turn hrounds hbefore hchanged hne hwritten hafter
    obtain ⟨v, rfl⟩ := Scene.exists_read (hsource ▸ hsome) hu
    refine ⟨v, ?_, hholds v rfl⟩
    rw [hrest.read_eq hsource hafter, hturn.read_eq ?_, hu]
    rintro slot hslot rfl
    rw [hsource] at hslot
    exact hne (Slot.variable.inj (Option.some.inj hslot))
  · intro before b after hrounds hafter v hv
    obtain ⟨s₁, s₂, hbefore, -, -, u, hu, hholds⟩ :=
      exists_turn h hgroup hfixed hlossless hm hrounds
    have hearlier : source ∉ Round.writtenNames before := fun hc =>
      (h.apart hrounds).2.2 source (Round.mem_names_of_written hc)
        (Round.mem_names_of_written hafter)
    rw [hbefore.read_eq hsource hearlier, hv] at hu
    exact hholds v (Except.ok.inj hu).symm

/-! ## The completion of a call -/

/-- The variables into which a completion pushes are written. -/
theorem written_pushAll {values : List (Slot × Value)} {pushed : List String}
    (hvalues : ∀ entry ∈ values, s.frame.wiring.Writes entry.1)
    (h : (pushAll values).run s = (.ok pushed, s')) (hname : name ∈ pushed) :
    (s'.peek (.variable name)).isSome = true := by
  rw [mem_pushed_iff h] at hname
  obtain ⟨v, hv⟩ := hname
  induction values generalizing s pushed with
  | nil => exact absurd hv (by simp)
  | cons entry rest ih =>
      obtain ⟨slot, u⟩ := entry
      obtain ⟨_, s₁, hwrite, h⟩ := run_bind_eq_ok h
      obtain ⟨others, s₂, hrest, h⟩ := run_bind_eq_ok h
      obtain rfl : s₂ = s' := by cases slot <;> exact (Prod.mk.inj h).2
      rw [run_write] at hwrite
      have hwrote := s.evolves_write slot [(some .append, u)] fun hs =>
        hs.declares (hvalues (slot, u) (by simp))
      rw [hwrite] at hwrote
      have hlater : ∀ entry ∈ rest, s₁.frame.wiring.Writes entry.1 := fun entry hentry => by
        rw [hwrote.wiring]
        exact hvalues entry (List.mem_cons_of_mem _ hentry)
      rcases List.mem_cons.1 hv with heq | hv
      · obtain ⟨rfl, rfl⟩ := Prod.mk.inj heq
        have hevolves := evolves_pushAll s₁ rest hlater
        rw [hrest] at hevolves
        refine hevolves.written _ ?_
        rcases Scene.write_eq_ok hwrite with ⟨hnil, -⟩ | ⟨-, rfl, -⟩
        · exact absurd hnil (by simp)
        · exact Scene.isSome_peek_of_write hwrite
      · exact ih hlater hrest hv

/-- **What the completion of a call does to readers of variables.** -/
theorem follows_of_settle {call : CallId} {order : List String} (hb : s.frame.wiring.Built)
    (h : (settle call).run s = (.ok order, s')) :
    ∃ changed rounds s₁, order = changed ++ Round.writtenNames rounds ∧
      (s.complete call).Evolves (SettlesInto s.frame.wiring call) s₁ ∧
      (∀ n, n ∉ changed → s₁.terminal? (.variable n) = s.terminal? (.variable n)) ∧
      Refreshes (changed.flatMap s₁.frame.wiring.readers) [] rounds s₁ s' ∧
      ∀ {name source group m}, s'.frame.wiring.current? (.variable name) = some group →
        Mapping.Fixed group → Mapping.Lossless group → m ∈ group → m.source = .variable source →
        source ≠ name → source ∈ order → Follows s₁ s' changed rounds name source m := by
  obtain ⟨values, pushed, s₁, fed, s₂, refreshed, hvalues, hpush, hfeed, hpropagate, rfl⟩ :=
    settle_eq_ok h
  have hpushes := evolves_pushes hvalues
  rw [hpush] at hpushes
  have hwrites := writes_of_pushes hvalues
  have hpushAll := evolves_pushAll (s.complete call) values hwrites
  rw [hpush] at hpushAll
  have hfed := rereads_feed hfeed
  have hfeeds := evolves_feed s₁ (s₁.frame.wiring.fedBy call)
  rw [hfeed] at hfeeds
  have hb₂ : s₂.frame.wiring.Built := by
    rw [hfed.evolves.wiring, hpushes.wiring]
    exact hb.of_reset_eq (Wiring.reset_complete ..)
  obtain ⟨rounds, rfl, hrounds⟩ := refreshes_of_propagate hb₂ hpropagate
  refine ⟨pushed ++ fed, rounds, s₂, rfl, ?_, ?_, hrounds, ?_⟩
  · refine (hpushes.mono fun _ => .inl).trans (hfeeds.mono ?_)
    rintro slot ⟨n, hn, rfl⟩
    rw [hpushes.wiring] at hn
    exact .inr ⟨n, rfl, .inl ((Wiring.fedBy_complete ..) ▸ hn)⟩
  · intro n hn
    rw [hfed.terminal?_eq fun hc => hn (List.mem_append_right _ hc)]
    refine hpushAll.others _ ?_
    rintro ⟨⟨slot, v⟩, hentry, rfl⟩
    exact hn (List.mem_append_left _ ((mem_pushed_iff hpush).2 ⟨v, hentry⟩))
  · intro name source group m hgroup hfixed hlossless hm hsource hne hmem
    rw [hrounds.wiring] at hgroup
    refine follows_of_refreshes hb₂ hrounds ?_ hgroup hfixed hlossless hm hsource hne hmem
    intro n hn
    rcases List.mem_append.1 hn with hn | hn
    · exact hfed.evolves.written _ (written_pushAll hwrites hpush hn)
    · exact hfed.written hn

end Flow

namespace Walk

variable {ctx : Context} {id : CompositionId} {inputs : List (String × Value)} {depth fuel : Nat}
  {w₀ w w' : Walk} {history : List Visit} {v : Visit} {r : Except RunFault (Option CallId)}
  {next : Option CallId}

/-- **What becomes of the variables that read a variable which a completed call has written.**  The
call is settled in a scene that differs from the one before the visit only inside the call.
Variables that change with it are written, and from there a propagation goes through its rounds.  A
reader whose places are fixed and lie side by side has one round; it holds what its source has in
the end unless that is written later, and what the source had before the propagation if it is. -/
theorem follows_of_executes (hbegins : w₀.Begins ctx id inputs)
    (hreaches : Reaches ctx depth w₀ history r w)
    (hexecutes : Executes ctx (runner (steps ctx fuel)) depth w v (.ok next) w')
    (hcompleted : v.outcome = .completed) :
    ∃ s changed rounds s₁,
      (Flow.settle v.call).run s = (.ok (changed ++ Flow.Round.writtenNames rounds), w'.scene) ∧
      s.frame.wiring = w.scene.frame.wiring ∧
      (∀ slot, ¬ slot.Inside v.call → s.terminal? slot = w.scene.terminal? slot) ∧
      (∀ n, n ∉ changed → s₁.terminal? (.variable n) = s.terminal? (.variable n)) ∧
      Flow.Refreshes (changed.flatMap s₁.frame.wiring.readers) [] rounds s₁ w'.scene ∧
      ∀ {name source group m}, w'.scene.frame.wiring.current? (.variable name) = some group →
        Mapping.Fixed group → Mapping.Lossless group → m ∈ group → m.source = .variable source →
        source ≠ name → source ∈ changed ++ Flow.Round.writtenNames rounds →
        Flow.Follows s₁ w'.scene changed rounds name source m := by
  obtain ⟨s, settled, hsettle, ⟨next', hr⟩, -, hwiring, hothers, -, -⟩ :=
    hexecutes.completed (faithful_runner ctx fuel) hcompleted
  have hbuilt := built_of_reaches hbegins hreaches
  rw [← hwiring] at hbuilt
  cases settled with
  | error fault => exact absurd hr (by simp [Except.map])
  | ok order =>
      obtain ⟨changed, rounds, s₁, rfl, -, hkept, hrounds, hfollows⟩ :=
        Flow.follows_of_settle hbuilt hsettle
      exact ⟨s, changed, rounds, s₁, hsettle, hwiring, hothers, hkept, hrounds, hfollows⟩

end Walk

namespace Sample

/-- The mapping from the variable `b` into the second place of the variable `pair`. -/
def second : Mapping := ⟨.variable "b", none, .variable "pair", some (.index 1), none⟩

/-- The output of call 0 goes to the variable `a`, and from there to `b`; `pair` reads both and is
declared before `b`, which starts as falsehood. -/
def late : Context where
  graph := .ofParts "late" [negation] [{
    id := ⟨0⟩, name := "late", represents := none, starts := [⟨0⟩]
    calls := [⟨⟨0⟩, ⟨0⟩, .stop, none⟩]
    mappings := [
      ⟨.constant (.bool false), none, .call ⟨0⟩ (.param 0), none, none⟩,
      ⟨.call ⟨0⟩ .output, none, .variable "a", none, none⟩,
      ⟨.variable "a", none, .variable "pair", some (.index 0), none⟩,
      second,
      ⟨.constant (.bool false), none, .variable "b", none, none⟩,
      ⟨.variable "a", none, .variable "b", none, some ⟨0⟩⟩] }]
  host := host
  checked := true

/-- The walk before its first visit. -/
def seeded : Walk := { startOf late with scene := (Flow.seed.run (startOf late).scene).2 }

theorem reaches_seeded : Walk.Reaches late 0 (startOf late) [] (.ok (some ⟨0⟩)) seeded :=
  .seeded (s := seeded.scene) rfl

end Sample

/-- In the end `b` is true and the place of `pair` for it is false. -/
theorem Walk.follows_of_executes_sample :
    ∃ (w' : Walk) (v : Visit) (s₁ : Scene) (changed : List String)
    (rounds : List Flow.Round) (u : Value),
    Reaches Sample.late 0 (Sample.startOf Sample.late) [] (.ok (some v.call)) Sample.seeded ∧
    Executes Sample.late (runner (steps Sample.late 0)) 0 Sample.seeded v (.ok none) w' ∧
    v.outcome = .completed ∧ "b" ∈ changed ++ Flow.Round.writtenNames rounds ∧
    Flow.Follows s₁ w'.scene changed rounds "pair" "b" Sample.second ∧
    (w'.scene.peek (.variable "b")).map Value.truthy = some true ∧
    w'.scene.Holds "pair" Sample.second u ∧ u.truthy = false := by
  have hcheck :
      (Walk.visit Sample.late (runner (steps Sample.late 0)) 0 ⟨0⟩ Sample.seeded).any (fun ran =>
      ran.1.toOption == some none &&
        ((ran.2.scene.peek (.variable "b")).map Value.truthy == some true &&
        (ran.2.scene.terminal? (.variable "pair")).any fun t =>
          (t.cell.contents.at? (.position 1)).any fun u => !u.truthy)) = true := by decide +kernel
  obtain ⟨⟨r, w'⟩, hvisit, hcheck⟩ := (Option.any_eq_true ..).1 hcheck
  simp only [Bool.and_eq_true, beq_iff_eq] at hcheck
  obtain ⟨hr, hb, hpair⟩ := hcheck
  obtain ⟨t, ht, hplace⟩ := (Option.any_eq_true ..).1 hpair
  obtain ⟨u, hu, hfalse⟩ := (Option.any_eq_true ..).1 hplace
  cases r with
  | error fault => exact absurd hr (by simp [Except.toOption])
  | ok next =>
    obtain rfl : next = none := by simpa [Except.toOption] using hr
    rcases visit_cases hvisit with ⟨fault, hfault, -⟩ | ⟨v, hv, hexecutes⟩
    · exact absurd hfault (by simp)
    · have hreaches : Reaches Sample.late 0 (Sample.startOf Sample.late) [] (.ok (some v.call))
          Sample.seeded := hv ▸ Sample.reaches_seeded
      -- the variable has changed, so that the call has completed and has written it
      have hchange :
          w'.scene.terminal? (.variable "b") ≠ Sample.seeded.scene.terminal? (.variable "b") := by
        intro hsame
        rw [Scene.peek_variable, hsame] at hb
        exact absurd hb (by decide +kernel)
      have hcompleted : v.outcome = .completed := by
        by_contra hne
        exact hchange ((hexecutes.not_completed hne).2 _ (by rintro ⟨port, hc⟩; cases hc))
      obtain ⟨s, changed, rounds, s₁, -, -, hothers, hkept, hrounds, hfollows⟩ :=
        follows_of_executes (Sample.begins_startOf rfl) hreaches hexecutes hcompleted
      have hwritten : "b" ∈ changed ++ Flow.Round.writtenNames rounds := by
        by_contra hne
        rw [List.mem_append, not_or] at hne
        refine hchange ?_
        rw [hrounds.rereads.terminal?_eq hne.2, hkept _ hne.1]
        exact hothers _ (by rintro ⟨port, hc⟩; cases hc)
      have hwiring := (hreaches.executed hexecutes).wiring
      have hcalls : completedCalls [v] = [⟨0⟩] := by simp [completedCalls, hcompleted, hv]
      rw [hcalls] at hwiring
      have hgroup : w'.scene.frame.wiring.current? (.variable "pair")
          = some [⟨.variable "a", none, .variable "pair", some (.index 0), none⟩,
            Sample.second] := by
        rw [hwiring]
        rfl
      exact ⟨w', v, s₁, changed, rounds, u, hreaches, hexecutes, hcompleted, hwritten,
        hfollows hgroup (by decide) (by decide) (by simp) rfl (by decide) hwritten, hb, ⟨t, ht, hu⟩,
        by simpa using hfalse⟩

end CallFlow
