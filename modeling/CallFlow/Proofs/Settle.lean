import CallFlow.Proofs.Propagation

/-!
# What a completion re-reads

The completion of a call makes the groups that it keys authoritative, but it does not read all of
them: it re-reads the variables with a mapping from the call itself, and whatever reads a variable
that was written.  A variable that the call keys with a mapping from elsewhere, such as a
constant, keeps the value it has.

`Flow.settles_of_settle` says which variables are re-read and what they hold then.
-/

namespace CallFlow

/-! ## What variables show -/

/-- The variable shows what the mapping reads. -/
def Scene.Shows (s : Scene) (name : String) (m : Mapping) : Prop :=
  ∃ v, s.read m = .ok (some v) ∧ s.peek (.variable name) = some v

namespace Rereads

variable {name : String} {m : Mapping} {s s₁ s' : Scene}

/-- A variable that was re-read shows what the mapping reads, if the mapping does not read that
variable itself. -/
theorem shows_first {group : List Mapping} (hdirect : m.isDirect = true)
    (hgroup : s.frame.wiring.current? (.variable name) = some [m])
    (hsource : m.source ≠ .variable name)
    (hcurrent : s.frame.wiring.current? (.variable name) = some group)
    (hfirst : (Flow.writeGroup (.variable name) group).run s = (.ok true, s₁)) :
    s₁.Shows name m := by
  have hevolves := evolves_first hcurrent hfirst
  obtain rfl : [m] = group := Option.some.inj (hgroup.symm.trans hcurrent)
  rcases Flow.writeGroup_eq_ok hdirect hfirst with ⟨-, hb, -⟩ | ⟨v, hv, -, hpeek⟩
  · exact absurd hb (by simp)
  · refine ⟨v, ?_, by rw [Scene.peek_variable, hpeek]⟩
    rw [hevolves.read_eq fun slot hslot hc => hsource (Slot.eq_of_of? (hc ▸ hslot))]
    exact hv

theorem shows_keep {order : List String} (hdirect : m.isDirect = true)
    (hgroup : s.frame.wiring.current? (.variable name) = some [m])
    (hsource : ∀ n, m.source = .variable n → n ≠ name ∧ n ∉ order) (hshows : s.Shows name m)
    (h : Rereads order s s') : s'.Shows name m := by
  induction h with
  | nil s => exact hshows
  | @cons n group rest s s₁ s' hcurrent hfirst _ ih =>
      have hevolves := evolves_first hcurrent hfirst
      refine ih (by rw [hevolves.wiring]; exact hgroup) ?_ ?_
      · intro n' hn'
        obtain ⟨hne, hmem⟩ := hsource n' hn'
        exact ⟨hne, fun hc => hmem (List.mem_cons_of_mem _ hc)⟩
      · by_cases hn : n = name
        · subst hn
          exact shows_first hdirect hgroup (fun hc => (hsource n hc).1 rfl) hcurrent hfirst
        · obtain ⟨v, hread, hpeek⟩ := hshows
          refine ⟨v, ?_, ?_⟩
          · rw [hevolves.read_eq fun slot hslot hc => ?_]
            · exact hread
            · exact (hsource n (Slot.eq_of_of? (hc ▸ hslot))).2 (by simp)
          · rw [hevolves.peek_eq fun slot hslot hc => ?_]
            · exact hpeek
            · exact hn (Slot.variable.inj (hc.symm.trans (Option.some.inj hslot).symm))

/-- **After its last re-reading a variable shows what its mapping reads**, unless the source of that
is a variable that was itself re-read since. -/
theorem shows {before after : List String} (hdirect : m.isDirect = true)
    (hgroup : s.frame.wiring.current? (.variable name) = some [m])
    (hsource : ∀ n, m.source = .variable n → n ≠ name ∧ n ∉ after)
    (h : Rereads (before ++ name :: after) s s') : s'.Shows name m := by
  induction before generalizing s with
  | nil =>
      cases h with
      | cons hcurrent hfirst hothers =>
          have hshows :=
            shows_first hdirect hgroup (fun hc => (hsource name hc).1 rfl) hcurrent hfirst
          refine shows_keep hdirect ?_ hsource hshows hothers
          rw [(evolves_first hcurrent hfirst).wiring]
          exact hgroup
  | cons n rest ih =>
      cases h with
      | cons hcurrent hfirst hothers =>
          refine ih ?_ hothers
          rw [(evolves_first hcurrent hfirst).wiring]
          exact hgroup

/-- What comes before the re-reading does not matter, if it does not name the variable. -/
theorem shows_of_append {pushed order before after : List String} (hdirect : m.isDirect = true)
    (hgroup : s.frame.wiring.current? (.variable name) = some [m]) (hpushed : name ∉ pushed)
    (horder : pushed ++ order = before ++ name :: after)
    (hsource : ∀ n, m.source = .variable n → n ≠ name ∧ n ∉ after)
    (h : Rereads order s s') : s'.Shows name m := by
  rcases List.append_eq_append_iff.1 horder with ⟨rest, -, rfl⟩ | ⟨rest, rfl, hrest⟩
  · exact h.shows hdirect hgroup hsource
  · cases rest with
    | nil =>
        obtain rfl : name :: after = order := hrest
        have hall : Rereads ([] ++ name :: after) s s' := h
        exact hall.shows hdirect hgroup hsource
    | cons n rest =>
        obtain ⟨rfl, -⟩ := List.cons.inj hrest
        exact absurd (by simp) hpushed

end Rereads

namespace Flow

theorem rereads_feed {names fed : List String} {s s' : Scene}
    (h : (feed names).run s = (.ok fed, s')) : Rereads fed s s' := by
  induction names generalizing s fed with
  | nil =>
      obtain ⟨hfed, rfl⟩ := Prod.mk.inj h
      obtain rfl := Except.ok.inj hfed
      exact .nil s
  | cons name rest ih =>
      obtain ⟨written, s₁, hingest, h⟩ := run_bind_eq_ok h
      obtain ⟨others, s₂, hrest, h⟩ := run_bind_eq_ok h
      obtain ⟨hfed, rfl⟩ := Prod.mk.inj h
      obtain rfl := Except.ok.inj hfed
      rcases ingest_eq_writeGroup hingest with ⟨rfl, rfl⟩ | ⟨group, hgroup, hwrite⟩
      · exact ih hrest
      · cases written with
        | true => exact .cons hgroup hwrite (ih hrest)
        | false =>
            obtain rfl := eq_of_writeGroup_false hwrite
            exact ih hrest

theorem rereads_propagate {changed order : List String} {s s' : Scene} (hb : s.frame.wiring.Built)
    (h : (propagate changed).run s = (.ok order, s')) : Rereads order s s' := by
  obtain ⟨rounds, rfl, hrounds⟩ := refreshes_of_propagate hb h
  exact hrounds.rereads

/-! ## Which variables are re-read -/

section Membership

variable {name : String} {m : Mapping} {s s' : Scene}

/-- A direct mapping whose source is written writes its variable. -/
theorem writeGroup_written {slot : Slot} {b : Bool} {s₁ : Scene} (hdirect : m.isDirect = true)
    (hwritten : (s.peek m.source).isSome = true)
    (h : (writeGroup slot [m]).run s = (.ok b, s₁)) : b = true := by
  rcases writeGroup_eq_ok hdirect h with ⟨hread, -⟩ | ⟨-, -, hb, -⟩
  · obtain ⟨v, hv⟩ := Option.isSome_iff_exists.1 hwritten
    unfold Scene.read at hread
    rw [hv] at hread
    split at hread
    · split at hread <;> simp at hread
    · rename_i hother
      exact absurd (Except.ok.inj hread) (by simp)
  · exact hb

theorem mem_feed_iff {names fed : List String} (hdirect : m.isDirect = true)
    (hgroup : s.frame.wiring.current? (.variable name) = some [m])
    (hwritten : (s.peek m.source).isSome = true) (h : (feed names).run s = (.ok fed, s')) :
    name ∈ fed ↔ name ∈ names := by
  induction names generalizing s fed with
  | nil =>
      obtain ⟨hfed, -⟩ := Prod.mk.inj h
      rw [← Except.ok.inj hfed]
  | cons n rest ih =>
      obtain ⟨written, s₁, hingest, h⟩ := run_bind_eq_ok h
      obtain ⟨others, s₂, hrest, h⟩ := run_bind_eq_ok h
      obtain ⟨hfed, rfl⟩ := Prod.mk.inj h
      obtain rfl := Except.ok.inj hfed
      have hevolves := evolves_ingest s (.variable n)
      rw [hingest] at hevolves
      have hothers := ih (by rw [hevolves.wiring]; exact hgroup) (hevolves.written _ hwritten) hrest
      by_cases hn : n = name
      · subst hn
        rcases ingest_eq_writeGroup hingest with ⟨-, rfl⟩ | ⟨group, hcurrent, hwrite⟩
        · rw [run_ingest, Wiring.authoritative_of_current? hgroup] at hingest
          simp [writeGroup_written hdirect hwritten hingest]
        · obtain rfl : [m] = group := Option.some.inj (hgroup.symm.trans hcurrent)
          simp [writeGroup_written hdirect hwritten hwrite]
      · cases written <;> simp [hothers, Ne.symm hn]

/-- **A propagation re-reads what reads a variable that has changed**, directly or through
others. -/
theorem mem_propagate (hb : s.frame.wiring.Built) (hdirect : m.isDirect = true)
    (hgroup : s.frame.wiring.current? (.variable name) = some [m])
    (hwritten : (s.peek m.source).isSome = true) {changed order : List String}
    (h : (propagate changed).run s = (.ok order, s')) :
    name ∈ order ↔ ∃ source ∈ changed ++ order, name ∈ s.frame.wiring.readers source := by
  obtain ⟨rounds, rfl, hrounds⟩ := refreshes_of_propagate hb h
  constructor
  · intro hname
    obtain ⟨before, after, hsplit⟩ := List.append_of_mem (Round.mem_writtenNames.1 hname)
    rcases hrounds.origin hsplit with hpending | ⟨source, hsource, hreader⟩
    · obtain ⟨source, hchanged, hreader⟩ := List.mem_flatMap.1 hpending
      exact ⟨source, List.mem_append_left _ hchanged, hreader⟩
    · have hround := Round.mem_writtenNames.1 hsource
      have hearlier : source ∈ Round.writtenNames rounds :=
        Round.mem_writtenNames.2 (by rw [hsplit]; exact List.mem_append_left _ hround)
      exact ⟨source, List.mem_append_right _ hearlier, hreader⟩
  · rintro ⟨source, hsource, hreader⟩
    have hname : name ∈ Round.names rounds := by
      refine hrounds.mem_names hgroup (by simp) ?_
      rcases List.mem_append.1 hsource with hchanged | hearlier
      · exact .inl (List.mem_flatMap.2 ⟨source, hchanged, hreader⟩)
      · exact .inr ⟨source, hearlier, hreader⟩
    obtain ⟨⟨n, b⟩, hr, rfl⟩ := List.mem_map.1 hname
    obtain ⟨before, after, hsplit⟩ := List.append_of_mem hr
    -- in its round the variable is written, since the source still is
    obtain ⟨s₁, s₂, group, hbefore, hcurrent, hround, -⟩ := hrounds.split hsplit
    rw [hbefore.evolves.wiring, hgroup] at hcurrent
    obtain rfl := Option.some.inj hcurrent
    obtain rfl : b = true := writeGroup_written hdirect (hbefore.evolves.written _ hwritten) hround
    exact Round.mem_writtenNames.2 hr

/-- The variables that pushes name are those that they go to. -/
theorem mem_pushed_iff {values : List (Slot × Value)} {pushed : List String}
    (h : (pushAll values).run s = (.ok pushed, s')) :
    name ∈ pushed ↔ ∃ v, (.variable name, v) ∈ values := by
  induction values generalizing s pushed with
  | nil =>
      obtain ⟨hpushed, -⟩ := Prod.mk.inj h
      simp [← Except.ok.inj hpushed]
  | cons entry rest ih =>
      obtain ⟨slot, v⟩ := entry
      obtain ⟨_, s₁, -, h⟩ := run_bind_eq_ok h
      obtain ⟨others, s₂, hrest, h⟩ := run_bind_eq_ok h
      cases slot with
      | call _ _ | boundary _ =>
          obtain ⟨hpushed, rfl⟩ := Prod.mk.inj h
          rw [← Except.ok.inj hpushed, ih hrest]
          simp
      | «variable» n =>
          obtain ⟨hpushed, rfl⟩ := Prod.mk.inj h
          rw [← Except.ok.inj hpushed, List.mem_cons, ih hrest]
          simp [exists_or]

end Membership

/-- What the completion of a call does to a variable that it keys with one direct mapping from a
written source.  The order has the variables that were written. -/
structure Settles (s s' : Scene) (call : CallId) (order : List String) (name : String)
    (m : Mapping) :
    Prop where
  /-- It is re-read if the call feeds it, or if it reads a variable that was written. -/
  mem_iff : name ∈ order ↔ name ∈ s.frame.wiring.fedBy call ∨
    ∃ source ∈ order, name ∈ s.frame.wiring.readers source
  /-- Otherwise it stays as it is. -/
  kept : name ∉ order → s'.terminal? (.variable name) = s.terminal? (.variable name)
  /-- It shows what its mapping reads, unless that reads a variable that was written later. -/
  shows : ∀ before after, order = before ++ name :: after →
    (∀ n, m.source = .variable n → n ≠ name ∧ n ∉ after) → s'.Shows name m
  /-- It shows what its mapping reads from the call itself. -/
  own : m.sourceCall? = some call → s'.Shows name m

section Completion

variable {s s' : Scene} {call : CallId} {order : List String} {name : String} {m : Mapping}

/-- Once the groups that the call keys are authoritative, a direct mapping among them is what counts
for its variable. -/
theorem current?_of_wiring {s₁ : Scene} (hb : s.frame.wiring.Built)
    (hm : m ∈ s.frame.wiring.group (.variable name) (some call)) (hdirect : m.isDirect = true)
    (hw : s₁.frame.wiring = s.frame.wiring.complete call) :
    s₁.frame.wiring.Built ∧ s₁.frame.wiring.current? (.variable name) = some [m] := by
  rw [hw]
  exact ⟨hb.of_reset_eq (Wiring.reset_complete ..), hb.current?_complete hm hdirect⟩

/-- The pushes of a completion name no variable that the call keys with a direct mapping. -/
theorem not_mem_pushed {values : List (Slot × Value)} {pushed : List String} {s₁ : Scene}
    (hb : s.frame.wiring.Built) (hm : m ∈ s.frame.wiring.group (.variable name) (some call))
    (hdirect : m.isDirect = true)
    (hvalues : pushes (s.complete call) (s.frame.wiring.accumulatingFrom call) = .ok values)
    (hpush : (pushAll values).run (s.complete call) = (.ok pushed, s₁)) : name ∉ pushed := by
  intro hname
  obtain ⟨v, hv⟩ := (mem_pushed_iff hpush).1 hname
  obtain ⟨m', hm', htarget, -⟩ := mem_pushes hvalues hv
  obtain ⟨hmem, hacc, -⟩ := Wiring.mem_accumulatingFrom.1 hm'
  exact hb.not_accumulating hm hdirect hmem hacc htarget

/-- A completion pushes, which leaves such a variable as it is, and then it re-reads variables. -/
theorem rereads_settle (hb : s.frame.wiring.Built)
    (hm : m ∈ s.frame.wiring.group (.variable name) (some call)) (hdirect : m.isDirect = true)
    (h : (settle call).run s = (.ok order, s')) :
    ∃ pushed reread s₁, order = pushed ++ reread ∧ name ∉ pushed ∧
      s₁.terminal? (.variable name) = s.terminal? (.variable name) ∧
      s₁.frame.wiring.current? (.variable name) = some [m] ∧ Rereads reread s₁ s' := by
  obtain ⟨values, pushed, s₁, fed, s₂, refreshed, hvalues, hpush, hfeed, hpropagate, rfl⟩ :=
    settle_eq_ok h
  have hevolves := evolves_pushes hvalues
  rw [hpush] at hevolves
  have hkept : s₁.terminal? (.variable name) = s.terminal? (.variable name) := by
    refine hevolves.others _ ?_
    rintro ⟨m', hm', htarget⟩
    obtain ⟨hmem, hacc, -⟩ := Wiring.mem_accumulatingFrom.1 hm'
    exact hb.not_accumulating hm hdirect hmem hacc htarget
  obtain ⟨hbuilt, hgroup⟩ := current?_of_wiring hb hm hdirect hevolves.wiring
  have hfed := rereads_feed hfeed
  exact ⟨pushed, fed ++ refreshed, s₁, List.append_assoc ..,
    not_mem_pushed hb hm hdirect hvalues hpush,
    hkept, hgroup, hfed.trans (rereads_propagate (hfed.evolves.wiring ▸ hbuilt) hpropagate)⟩

/-- A completion re-reads such a variable if its source is written and the call feeds it or it reads
a variable that was written, and only then. -/
theorem mem_settle_iff (hb : s.frame.wiring.Built)
    (hm : m ∈ s.frame.wiring.group (.variable name) (some call)) (hdirect : m.isDirect = true)
    (hwritten : (s.peek m.source).isSome = true) (h : (settle call).run s = (.ok order, s')) :
    name ∈ order ↔ name ∈ s.frame.wiring.fedBy call ∨
      ∃ source ∈ order, name ∈ s.frame.wiring.readers source := by
  obtain ⟨values, pushed, s₁, fed, s₂, refreshed, hvalues, hpush, hfeed, hpropagate, rfl⟩ :=
    settle_eq_ok h
  have hevolves₁ := evolves_pushes hvalues
  rw [hpush] at hevolves₁
  have hevolves₂ := (rereads_feed hfeed).evolves
  have hwritten₁ := hevolves₁.written _ hwritten
  have hwritten₂ := hevolves₂.written _ hwritten₁
  have hw₂ : s₂.frame.wiring = s.frame.wiring.complete call :=
    hevolves₂.wiring.trans hevolves₁.wiring
  obtain ⟨-, hgroup₁⟩ := current?_of_wiring hb hm hdirect hevolves₁.wiring
  obtain ⟨hbuilt₂, hgroup₂⟩ := current?_of_wiring hb hm hdirect hw₂
  have hpushed := not_mem_pushed hb hm hdirect hvalues hpush
  have hfed : name ∈ fed ↔ name ∈ s.frame.wiring.fedBy call := by
    rw [mem_feed_iff hdirect hgroup₁ hwritten₁ hfeed, hevolves₁.wiring]
    exact iff_of_eq (congrArg (name ∈ ·) (Wiring.fedBy_complete ..))
  have hrefreshed := mem_propagate hbuilt₂ hdirect hgroup₂ hwritten₂ hpropagate
  have hreaders : ∀ source, s₂.frame.wiring.readers source = s.frame.wiring.readers source := by
    intro source
    rw [hw₂]
    exact Wiring.readers_complete ..
  simp only [hreaders] at hrefreshed
  rw [← hrefreshed, ← hfed]
  simp [hpushed]

/-- **What the completion of a call re-reads**, among the variables that it keys with a direct
mapping. -/
theorem settles_of_settle (hb : s.frame.wiring.Built)
    (hm : m ∈ s.frame.wiring.group (.variable name) (some call)) (hdirect : m.isDirect = true)
    (hwritten : (s.peek m.source).isSome = true) (h : (settle call).run s = (.ok order, s')) :
    Settles s s' call order name m := by
  have hmem := mem_settle_iff hb hm hdirect hwritten h
  obtain ⟨pushed, reread, s₁, rfl, hpushed, hkept, hgroup, hrereads⟩ :=
    rereads_settle hb hm hdirect h
  have hshows : ∀ before after, pushed ++ reread = before ++ name :: after →
      (∀ n, m.source = .variable n → n ≠ name ∧ n ∉ after) → s'.Shows name m :=
    fun _ _ horder hsource => hrereads.shows_of_append hdirect hgroup hpushed horder hsource
  refine ⟨hmem, ?_, hshows, ?_⟩
  · intro hname
    rw [← hkept]
    refine hrereads.evolves.others _ ?_
    rintro ⟨n, hn, heq⟩
    obtain rfl := Slot.variable.inj heq
    exact hname (List.mem_append_right _ hn)
  · intro hcall
    have hname : name ∈ pushed ++ reread :=
      hmem.2 (.inl (hb.mem_fedBy.2 ⟨some call, m, hm, hcall⟩))
    obtain ⟨before, after, horder⟩ := List.append_of_mem hname
    refine hshows before after horder ?_
    intro n hn
    simp [Mapping.sourceCall?, hn] at hcall

end Completion

end Flow

end CallFlow
