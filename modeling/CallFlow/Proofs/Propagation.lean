import CallFlow.Proofs.Completion
import Mathlib.Logic.Relation

/-!
# The rounds of a propagation

A propagation keeps a queue of variables and re-reads each of them once at most; one that is
written puts its readers at the end of the queue.  `Flow.Course` says so without fuel, round by
round up to the end or to the first failure, and `Flow.Refreshes` for those that come to their
end.  The fuel of `propagate` is enough for that (`Flow.course_of_propagate`), since the capacity
of the queue decreases in each round.

From the rounds follows what is re-read: no variable twice (`Refreshes.nodup`), only such that are
pending or read one that was written earlier (`Refreshes.origin`), and all of these
(`Refreshes.mem_names`).  Where each variable is a level below those that it reads, the rounds go
down level by level (`Refreshes.sorted`).
-/

namespace CallFlow

namespace Wiring

/-- The rounds that a propagation can still take: one for each pending variable, and for each
variable that was not refreshed as many as it can have readers. -/
def capacity (w : Wiring) (pending refreshed : List String) : Nat :=
  pending.length
    + (w.writtenVariables.filter fun n => !refreshed.contains n).length * w.writtenVariables.length

theorem length_readers_le (w : Wiring) (name : String) :
    (w.readers name).length ≤ w.writtenVariables.length := by
  rw [readers_eq]
  exact (w.sublist_variablesWith _).length_le

theorem filter_refreshed_cons (names refreshed : List String) (name : String) :
    (names.filter fun n => !(name :: refreshed).contains n)
      = (names.filter fun n => !refreshed.contains n).filter (· != name) := by
  rw [List.filter_filter]
  apply List.filter_congr
  intro n _
  rw [List.contains_cons, Bool.not_or]
  rfl

theorem capacity_refreshed_le (w : Wiring) (pending refreshed : List String) (name : String) :
    w.capacity pending (name :: refreshed) ≤ w.capacity pending refreshed := by
  rw [capacity, filter_refreshed_cons]
  exact Nat.add_le_add_left (Nat.mul_le_mul_right _ (List.length_filter_le ..)) _

/-- A variable with an authoritative group is written by groups. -/
theorem mem_writtenVariables_of_current? {w : Wiring} {name : String} {group : List Mapping}
    (hgroup : w.current? (.variable name) = some group) : name ∈ w.writtenVariables := by
  obtain ⟨target, htarget, -⟩ := Option.bind_eq_some_iff.1 hgroup
  exact mem_writtenVariables.2 (List.mem_map_of_mem (Assoc.mem_of_find?_eq_some htarget))

/-- A variable that is refreshed for the first time leaves room for its readers. -/
theorem capacity_readers_le {w : Wiring} {pending refreshed more : List String} {name : String}
    (hname : name ∈ w.writtenVariables) (hnew : name ∉ refreshed)
    (hmore : more.length ≤ w.writtenVariables.length) :
    w.capacity (pending ++ more) (name :: refreshed) ≤ w.capacity pending refreshed := by
  have hless : (w.writtenVariables.filter fun n => !(name :: refreshed).contains n).length
      < (w.writtenVariables.filter fun n => !refreshed.contains n).length := by
    rw [filter_refreshed_cons]
    refine List.length_filter_lt_length_iff_exists.2 ⟨name, ?_, by simp⟩
    exact List.mem_filter.2 ⟨hname, by simpa using hnew⟩
  have hmul := Nat.mul_le_mul_right w.writtenVariables.length hless
  rw [Nat.succ_mul] at hmul
  simp only [capacity, List.length_append]
  omega

end Wiring

/-! ## Variables that are re-read -/

/-- The variables are re-read one after the other, each from its authoritative group, and each of
them is written. -/
inductive Rereads : List String → Scene → Scene → Prop where
  | nil (s : Scene) : Rereads [] s s
  | cons {name : String} {group : List Mapping} {rest : List String} {s s₁ s' : Scene}
      (current : s.frame.wiring.current? (.variable name) = some group)
      (first : (Flow.writeGroup (.variable name) group).run s = (.ok true, s₁))
      (others : Rereads rest s₁ s') : Rereads (name :: rest) s s'

namespace Rereads

variable {order order' : List String} {s s₁ s' : Scene}

theorem trans (h : Rereads order s s₁) (h' : Rereads order' s₁ s') :
    Rereads (order ++ order') s s' := by
  induction h with
  | nil s => exact h'
  | cons hcurrent hfirst _ ih => exact .cons hcurrent hfirst (ih h')

theorem evolves_first {name : String} {group : List Mapping} {b : Bool}
    (hcurrent : s.frame.wiring.current? (.variable name) = some group)
    (hfirst : (Flow.writeGroup (.variable name) group).run s = (.ok b, s₁)) :
    s.Evolves (· = .variable name) s₁ := by
  have hevolves := Flow.evolves_writeGroup hcurrent
  rwa [hfirst] at hevolves

/-- Nothing is written but the variables that are re-read. -/
theorem evolves (h : Rereads order s s') :
    s.Evolves (fun slot => ∃ name ∈ order, slot = .variable name) s' := by
  induction h with
  | nil s => exact .refl _ s
  | cons hcurrent hfirst _ ih =>
      refine ((evolves_first hcurrent hfirst).mono fun _ h => ⟨_, by simp, h⟩).trans (ih.mono ?_)
      rintro slot ⟨n, hn, h⟩
      exact ⟨n, List.mem_cons_of_mem _ hn, h⟩

end Rereads

namespace Flow

/-! ## Rounds -/

/-- A variable that was re-read, and whether it was written. -/
structure Round where
  name : String
  written : Bool

namespace Round

/-- The variables of rounds. -/
def names (rounds : List Round) : List String := rounds.map (·.name)

/-- The variables that were written. -/
def writtenNames (rounds : List Round) : List String := names (rounds.filter (·.written))

theorem mem_writtenNames {rounds : List Round} {name : String} :
    name ∈ writtenNames rounds ↔ ⟨name, true⟩ ∈ rounds := by
  constructor
  · intro h
    obtain ⟨r, hr, rfl⟩ := List.mem_map.1 h
    obtain ⟨hmem, hwritten⟩ := List.mem_filter.1 hr
    cases r
    simp_all
  · exact fun h => List.mem_map.2 ⟨_, List.mem_filter.2 ⟨h, rfl⟩, rfl⟩

theorem mem_names_of_written {rounds : List Round} {name : String}
    (h : name ∈ writtenNames rounds) :
    name ∈ names rounds :=
  List.mem_map.2 ⟨_, mem_writtenNames.1 h, rfl⟩

theorem writtenNames_cons (name : String) (b : Bool) (rounds : List Round) :
    writtenNames (⟨name, b⟩ :: rounds)
      = if b then name :: writtenNames rounds else writtenNames rounds := by
  cases b <;> rfl

end Round

/-- The course of a refreshing, until nothing is pending or a variable cannot be re-read.  A pending
variable is passed over if it was refreshed before or has no authoritative group, and taken up
otherwise: it is re-read from that group, and its readers are pending then if it was written. -/
inductive Course : (pending refreshed taken : List String) → Except RunFault (List String) → Scene →
    Scene → Prop where
  | done (refreshed : List String) (s : Scene) : Course [] refreshed [] (.ok []) s s
  | again {name : String} {pending refreshed taken : List String}
      {result : Except RunFault (List String)}
      {s s' : Scene} (old : name ∈ refreshed) (rest : Course pending refreshed taken result s s') :
      Course (name :: pending) refreshed taken result s s'
  | bare {name : String} {pending refreshed taken : List String}
      {result : Except RunFault (List String)}
      {s s' : Scene} (new : name ∉ refreshed)
      (current : s.frame.wiring.current? (.variable name) = none)
      (rest : Course pending (name :: refreshed) taken result s s') :
      Course (name :: pending) refreshed taken result s s'
  | fails {name : String} {pending refreshed : List String} {s s' : Scene} {group : List Mapping}
      {fault : RunFault}
      (new : name ∉ refreshed) (current : s.frame.wiring.current? (.variable name) = some group)
      (first : (writeGroup (.variable name) group).run s = (.error fault, s')) :
      Course (name :: pending) refreshed [name] (.error fault) s s'
  | round {name : String} {pending refreshed taken : List String}
      {result : Except RunFault (List String)}
      {s s₁ s' : Scene} {group : List Mapping} {b : Bool} (new : name ∉ refreshed)
      (current : s.frame.wiring.current? (.variable name) = some group)
      (first : (writeGroup (.variable name) group).run s = (.ok b, s₁))
      (rest : Course (pending ++ if b then s.frame.wiring.readers name else [])
        (name :: refreshed) taken result
        s₁ s') :
      Course (name :: pending) refreshed (name :: taken)
        (result.map fun others => if b then name :: others else others) s s'

/-- Re-reading a variable leaves the wiring alone. -/
theorem wiring_of_writeGroup {s s' : Scene} {slot : Slot} {group : List Mapping}
    {result : Except RunFault Bool}
    (hcurrent : s.frame.wiring.current? slot = some group)
    (h : (writeGroup slot group).run s = (result, s')) :
    s'.frame.wiring = s.frame.wiring := by
  have hevolves := evolves_writeGroup hcurrent
  rw [h] at hevolves
  exact hevolves.wiring

/-- **A refreshing with enough fuel takes its course**, whether it succeeds or not. -/
theorem course_of_refresh {fuel : Nat} {pending refreshed : List String} {s : Scene}
    (hb : s.frame.wiring.Built)
    (hfuel : s.frame.wiring.capacity pending refreshed < fuel) :
    ∃ taken, Course pending refreshed taken ((refresh fuel pending refreshed).run s).1 s
      ((refresh fuel pending refreshed).run s).2 := by
  induction fuel generalizing s pending refreshed with
  | zero => exact absurd hfuel (by simp)
  | succ fuel ih =>
    cases pending with
    | nil => exact ⟨[], .done ..⟩
    | cons name pending =>
      have hsmaller : s.frame.wiring.capacity pending refreshed < fuel := by
        simp only [Wiring.capacity, List.length_cons] at hfuel ⊢
        omega
      rw [run_refresh_cons]
      split
      · rename_i hold
        obtain ⟨taken, hcourse⟩ := ih hb hsmaller
        exact ⟨taken, .again (by simpa using hold) hcourse⟩
      · rename_i hnew
        have hnew : name ∉ refreshed := by simpa using hnew
        split
        · rename_i hnone
          have hless := Nat.lt_of_le_of_lt (Wiring.capacity_refreshed_le _ _ _ name) hsmaller
          obtain ⟨taken, hcourse⟩ := ih hb hless
          exact ⟨taken, .bare hnew hnone hcourse⟩
        · rename_i group hcurrent
          rw [run_bind]
          cases hfirst : (writeGroup (.variable name) group).run s with
          | mk result s₁ =>
              have hwiring := wiring_of_writeGroup hcurrent hfirst
              cases result with
              | error fault => exact ⟨[name], .fails hnew hcurrent hfirst⟩
              | ok b =>
                  -- the variable leaves its place to its readers
                  have hroom : s.frame.wiring.capacity
                      (pending ++ if b then s.frame.wiring.readers name else [])
                        (name :: refreshed) < fuel := by
                    refine Nat.lt_of_le_of_lt (Wiring.capacity_readers_le ?_ hnew ?_) hsmaller
                    · exact Wiring.mem_writtenVariables_of_current? hcurrent
                    · split
                      · exact s.frame.wiring.length_readers_le name
                      · exact Nat.zero_le _
                  obtain ⟨taken, hcourse⟩ := ih (hwiring ▸ hb) (hwiring ▸ hroom)
                  rw [hwiring] at hcourse
                  refine ⟨name :: taken, ?_⟩
                  have hround := Course.round hnew hcurrent hfirst hcourse
                  simp only [run_bind]
                  cases hrest : (refresh fuel _ _).run s₁ with
                  | mk others s₂ =>
                      rw [hrest] at hround
                      cases others <;> exact hround

namespace Course

variable {pending refreshed taken : List String} {result : Except RunFault (List String)}
  {s s' : Scene}

/-- **No variable is taken up twice**, and none that was refreshed before. -/
theorem nodup (h : Course pending refreshed taken result s s') :
    taken.Nodup ∧ ∀ name ∈ taken, name ∉ refreshed := by
  induction h with
  | done _ _ => exact ⟨List.nodup_nil, by simp⟩
  | again _ _ ih => exact ih
  | bare _ _ _ ih => exact ⟨ih.1, fun n hn hold => ih.2 n hn (List.mem_cons_of_mem _ hold)⟩
  | fails hnew _ _ => exact ⟨by simp, by simpa using hnew⟩
  | round hnew _ _ _ ih =>
      refine ⟨List.nodup_cons.2 ⟨fun hc => ih.2 _ hc (by simp), ih.1⟩,
        List.forall_mem_cons.2 ⟨hnew, ?_⟩⟩
      exact fun n hn hold => ih.2 n hn (List.mem_cons_of_mem _ hold)

/-- What holds of all pending variables, and of every reader of one of which it holds, holds of all
that are taken up. -/
theorem forall_taken (h : Course pending refreshed taken result s s') {p : String → Prop}
    (hpending : ∀ n ∈ pending, p n) (hreaders : ∀ a, p a → ∀ b ∈ s.frame.wiring.readers a, p b) :
    ∀ n ∈ taken, p n := by
  induction h with
  | done _ _ => exact fun _ hn => absurd hn (by simp)
  | again _ _ ih => exact ih (fun n hn => hpending n (List.mem_cons_of_mem _ hn)) hreaders
  | bare _ _ _ ih => exact ih (fun n hn => hpending n (List.mem_cons_of_mem _ hn)) hreaders
  | fails _ _ _ => exact fun n hn => hpending n (by simp_all)
  | @round name _ _ _ _ s _ _ _ b _ hcurrent hfirst _ ih =>
      have hname : p name := hpending name (by simp)
      refine List.forall_mem_cons.2 ⟨hname, ih ?_ ?_⟩
      · intro n hn
        rcases List.mem_append.1 hn with hn | hn
        · exact hpending n (List.mem_cons_of_mem _ hn)
        · cases b with
          | true => exact hreaders name hname n hn
          | false => exact absurd hn (by simp)
      · rw [wiring_of_writeGroup hcurrent hfirst]
        exact hreaders

end Course

/-- What a refreshing does that comes to its end.  A pending variable is passed over if it was
refreshed before or has no authoritative group, and re-read otherwise; its readers are pending then
if it was written. -/
inductive Refreshes : (pending refreshed : List String) → List Round → Scene → Scene → Prop where
  | done (refreshed : List String) (s : Scene) : Refreshes [] refreshed [] s s
  | again {name : String} {pending refreshed : List String} {rounds : List Round} {s s' : Scene}
      (old : name ∈ refreshed) (rest : Refreshes pending refreshed rounds s s') :
      Refreshes (name :: pending) refreshed rounds s s'
  | bare {name : String} {pending refreshed : List String} {rounds : List Round} {s s' : Scene}
      (new : name ∉ refreshed) (current : s.frame.wiring.current? (.variable name) = none)
      (rest : Refreshes pending (name :: refreshed) rounds s s') :
      Refreshes (name :: pending) refreshed rounds s s'
  | round {name : String} {pending refreshed : List String} {rounds : List Round} {s s₁ s' : Scene}
      {group : List Mapping} {b : Bool} (new : name ∉ refreshed)
      (current : s.frame.wiring.current? (.variable name) = some group)
      (first : (writeGroup (.variable name) group).run s = (.ok b, s₁))
      (rest : Refreshes (pending ++ if b then s.frame.wiring.readers name else [])
        (name :: refreshed)
        rounds s₁ s') :
      Refreshes (name :: pending) refreshed (⟨name, b⟩ :: rounds) s s'

/-- A course that succeeds is one of rounds. -/
theorem Course.refreshes {pending refreshed taken order : List String}
    {result : Except RunFault (List String)}
    {s s' : Scene} (h : Course pending refreshed taken result s s') (hresult : result = .ok order) :
    ∃ rounds, Round.names rounds = taken ∧ order = Round.writtenNames rounds ∧
      Refreshes pending refreshed rounds s s' := by
  induction h generalizing order with
  | done _ _ => exact ⟨[], rfl, (Except.ok.inj hresult).symm, .done ..⟩
  | again hold _ ih =>
      obtain ⟨rounds, hnames, horder, h⟩ := ih hresult
      exact ⟨rounds, hnames, horder, .again hold h⟩
  | bare hnew hnone _ ih =>
      obtain ⟨rounds, hnames, horder, h⟩ := ih hresult
      exact ⟨rounds, hnames, horder, .bare hnew hnone h⟩
  | fails _ _ _ => exact absurd hresult (by simp)
  | @round name _ _ _ _ _ _ _ _ b hnew hcurrent hfirst _ ih =>
      obtain ⟨others, hothers, rfl⟩ := map_eq_ok hresult
      obtain ⟨rounds, rfl, rfl, h⟩ := ih hothers
      exact ⟨⟨name, b⟩ :: rounds, rfl, (Round.writtenNames_cons ..).symm,
        .round hnew hcurrent hfirst h⟩

/-- Rounds that come to their end are a course. -/
theorem Refreshes.course {pending refreshed : List String} {rounds : List Round} {s s' : Scene}
    (h : Refreshes pending refreshed rounds s s') :
    Course pending refreshed (Round.names rounds) (.ok (Round.writtenNames rounds)) s s' := by
  induction h with
  | done _ _ => exact .done ..
  | again hold _ ih => exact .again hold ih
  | bare hnew hnone _ ih => exact .bare hnew hnone ih
  | round hnew hcurrent hfirst _ ih =>
      rw [Round.writtenNames_cons]
      exact .round hnew hcurrent hfirst ih

/-- A propagation is a refreshing with one round more than can be taken. -/
theorem run_propagate (changed : List String) (s : Scene) :
    (propagate changed).run s =
      (refresh (s.frame.wiring.capacity (changed.flatMap s.frame.wiring.readers) [] + 1)
        (changed.flatMap s.frame.wiring.readers) []).run s := by
  have hall : (s.frame.wiring.writtenVariables.filter fun n => !([] : List String).contains n)
      = s.frame.wiring.writtenVariables := List.filter_eq_self.2 fun _ _ => rfl
  rw [Wiring.capacity, hall]
  rfl

/-- **A propagation takes its course**, whether it succeeds or not. -/
theorem course_of_propagate {s : Scene} (hb : s.frame.wiring.Built) (changed : List String) :
    ∃ taken, Course (changed.flatMap s.frame.wiring.readers) [] taken
      ((propagate changed).run s).1 s
      ((propagate changed).run s).2 := by
  rw [run_propagate]
  exact course_of_refresh hb (Nat.lt_succ_self _)

/-- **A propagation that succeeds comes to its end.** -/
theorem refreshes_of_propagate {changed order : List String} {s s' : Scene}
    (hb : s.frame.wiring.Built) (h : (propagate changed).run s = (.ok order, s')) :
    ∃ rounds, order = Round.writtenNames rounds ∧
      Refreshes (changed.flatMap s.frame.wiring.readers) [] rounds s s' := by
  obtain ⟨taken, hcourse⟩ := course_of_propagate hb changed
  rw [h] at hcourse
  obtain ⟨rounds, -, horder, hrounds⟩ := hcourse.refreshes rfl
  exact ⟨rounds, horder, hrounds⟩

namespace Refreshes

variable {pending refreshed : List String} {rounds : List Round} {s s' : Scene}

/-- The variables that were written are re-read one after the other. -/
theorem rereads (h : Refreshes pending refreshed rounds s s') :
    Rereads (Round.writtenNames rounds) s s' := by
  induction h with
  | done _ s => exact .nil s
  | again _ _ ih => exact ih
  | bare _ _ _ ih => exact ih
  | @round _ _ _ _ _ _ _ _ b _ hcurrent hfirst _ ih =>
      rw [Round.writtenNames_cons]
      cases b with
      | true => exact .cons hcurrent hfirst ih
      | false =>
          obtain rfl := eq_of_writeGroup_false hfirst
          exact ih

theorem wiring (h : Refreshes pending refreshed rounds s s') : s'.frame.wiring = s.frame.wiring :=
  h.rereads.evolves.wiring

/-- **No variable is re-read twice**, and none that was refreshed before. -/
theorem nodup (h : Refreshes pending refreshed rounds s s') :
    (Round.names rounds).Nodup ∧ ∀ name ∈ Round.names rounds, name ∉ refreshed :=
  h.course.nodup

/-- **A variable is re-read since it is pending or reads one that was written before.** -/
theorem origin (h : Refreshes pending refreshed rounds s s') {before after : List Round} {r : Round}
    (hrounds : rounds = before ++ r :: after) :
    r.name ∈ pending ∨ ∃ source ∈ Round.writtenNames before,
      r.name ∈ s.frame.wiring.readers source := by
  induction h generalizing before with
  | done _ _ => exact absurd hrounds (by simp)
  | again _ _ ih => exact (ih hrounds).imp_left (List.mem_cons_of_mem _)
  | bare _ _ _ ih => exact (ih hrounds).imp_left (List.mem_cons_of_mem _)
  | @round name _ _ _ _ _ _ _ b _ hcurrent hfirst _ ih =>
      cases before with
      | nil =>
          obtain ⟨rfl, -⟩ := List.cons.inj hrounds
          exact .inl (by simp)
      | cons first before =>
          obtain ⟨rfl, hrest⟩ := List.cons.inj hrounds
          rw [Round.writtenNames_cons]
          rcases ih hrest with hpending | ⟨source, hsource, hreader⟩
          · rcases List.mem_append.1 hpending with hpending | hmore
            · exact .inl (List.mem_cons_of_mem _ hpending)
            · cases b with
              | true => exact .inr ⟨name, by simp, hmore⟩
              | false => exact absurd hmore (by simp)
          · rw [(Rereads.evolves_first hcurrent hfirst).wiring] at hreader
            refine .inr ⟨source, ?_, hreader⟩
            split
            · exact List.mem_cons_of_mem _ hsource
            · exact hsource

/-- **Every variable with an authoritative group is re-read** that is pending or reads one that was
written, unless it was refreshed before. -/
theorem mem_names (h : Refreshes pending refreshed rounds s s') {name : String}
    {group : List Mapping}
    (hgroup : s.frame.wiring.current? (.variable name) = some group) (hnew : name ∉ refreshed)
    (hname : name ∈ pending ∨
      ∃ source ∈ Round.writtenNames rounds, name ∈ s.frame.wiring.readers source) :
    name ∈ Round.names rounds := by
  induction h with
  | done _ _ =>
      rcases hname with hname | ⟨source, hsource, -⟩
      · exact absurd hname (by simp)
      · exact absurd hsource (by simp [Round.writtenNames, Round.names])
  | again hold _ ih =>
      refine ih hgroup hnew (hname.imp_left fun hname => ?_)
      rcases List.mem_cons.1 hname with rfl | hname
      · exact absurd hold hnew
      · exact hname
  | @bare n _ _ _ _ _ _ hnone _ ih =>
      have hne : name ≠ n := by
        rintro rfl
        exact absurd (hgroup.symm.trans hnone) (by simp)
      exact ih hgroup (by simp [hne, hnew]) (hname.imp_left fun hname => by simpa [hne] using hname)
  | @round n _ _ rounds _ _ _ _ b _ hcurrent hfirst _ ih =>
      have hwiring := (Rereads.evolves_first hcurrent hfirst).wiring
      by_cases hne : name = n
      · exact List.mem_cons.2 (.inl hne)
      · refine List.mem_cons_of_mem _ (ih (hwiring ▸ hgroup) (by simp [hne, hnew]) ?_)
        rw [hwiring]
        rcases hname with hname | ⟨source, hsource, hreader⟩
        · have hmem := (List.mem_cons.1 hname).resolve_left hne
          exact .inl (List.mem_append_left _ hmem)
        · rw [Round.writtenNames_cons] at hsource
          cases b with
          | false => exact .inr ⟨source, hsource, hreader⟩
          | true =>
              rcases List.mem_cons.1 hsource with rfl | hsource
              · exact .inl (List.mem_append_right _ hreader)
              · exact .inr ⟨source, hsource, hreader⟩

/-- What comes before a round and what comes after it. -/
theorem split (h : Refreshes pending refreshed rounds s s') {before after : List Round} {r : Round}
    (hrounds : rounds = before ++ r :: after) :
    ∃ s₁ s₂ group, Rereads (Round.writtenNames before) s s₁ ∧
      s₁.frame.wiring.current? (.variable r.name) = some group ∧
      (writeGroup (.variable r.name) group).run s₁ = (.ok r.written, s₂) ∧
      Rereads (Round.writtenNames after) s₂ s' := by
  induction h generalizing before with
  | done _ _ => exact absurd hrounds (by simp)
  | again _ _ ih => exact ih hrounds
  | bare _ _ _ ih => exact ih hrounds
  | @round name _ _ _ s _ _ _ b _ hcurrent hfirst hrest ih =>
      cases before with
      | nil =>
          obtain ⟨rfl, rfl⟩ := List.cons.inj hrounds
          exact ⟨s, _, _, .nil s, hcurrent, hfirst, hrest.rereads⟩
      | cons first before =>
          obtain ⟨rfl, hsplit⟩ := List.cons.inj hrounds
          obtain ⟨s₁, s₂, group, hbefore, hgroup, hround, hafter⟩ := ih hsplit
          refine ⟨s₁, s₂, group, ?_, hgroup, hround, hafter⟩
          rw [Round.writtenNames_cons]
          cases b with
          | true => exact .cons hcurrent hfirst hbefore
          | false =>
              obtain rfl := eq_of_writeGroup_false hfirst
              exact hbefore

/-- **Rounds go down level by level**, if each variable is one level below those that it reads and
the pending variables are sorted and span two levels at most. -/
theorem sorted (h : Refreshes pending refreshed rounds s s') {level : String → Nat}
    (hlevel : ∀ source, ∀ name ∈ s.frame.wiring.readers source, level name = level source + 1)
    {k : Nat}
    (hpending : pending.Pairwise fun a b => level a ≤ level b)
    (hrange : ∀ name ∈ pending, k ≤ level name ∧ level name ≤ k + 1) :
    rounds.Pairwise (fun a b => level a.name ≤ level b.name) ∧ ∀ r ∈ rounds, k ≤ level r.name := by
  induction h generalizing k with
  | done _ _ => exact ⟨.nil, by simp⟩
  | again _ _ ih =>
      exact ih hlevel (List.pairwise_cons.1 hpending).2
        fun n hn => hrange n (List.mem_cons_of_mem _ hn)
  | bare _ _ _ ih =>
      exact ih hlevel (List.pairwise_cons.1 hpending).2
        fun n hn => hrange n (List.mem_cons_of_mem _ hn)
  | @round name pending _ _ s _ _ _ b _ hcurrent hfirst _ ih =>
      obtain ⟨hfirstLevel, hrest⟩ := List.pairwise_cons.1 hpending
      obtain ⟨hlow, hhigh⟩ := hrange name (by simp)
      have hmore : ∀ n ∈ (if b then s.frame.wiring.readers name else []),
          level n = level name + 1 := by
        intro n hn
        cases b with
        | true => exact hlevel name n hn
        | false => exact absurd hn (by simp)
      have hlevels : ∀ n ∈ pending, level name ≤ level n ∧ level n ≤ level name + 1 := fun n hn =>
        ⟨hfirstLevel n hn, by have := (hrange n (List.mem_cons_of_mem _ hn)).2; omega⟩
      -- the readers come behind, on the level of the last that are pending
      have hqueue : (pending ++ if b then s.frame.wiring.readers name else []).Pairwise
          fun a b => level a ≤ level b := by
        refine List.pairwise_append.2 ⟨hrest, ?_, ?_⟩
        · exact List.pairwise_of_forall_mem_list fun a ha b hb =>
            Nat.le_of_eq ((hmore a ha).trans (hmore b hb).symm)
        · intro a ha b hb
          rw [hmore b hb]
          exact (hlevels a ha).2
      have hspan : ∀ n ∈ pending ++ (if b then s.frame.wiring.readers name else []),
          level name ≤ level n ∧ level n ≤ level name + 1 := by
        intro n hn
        rcases List.mem_append.1 hn with hn | hn
        · exact hlevels n hn
        · rw [hmore n hn]
          exact ⟨Nat.le_succ _, Nat.le_refl _⟩
      rw [← (Rereads.evolves_first hcurrent hfirst).wiring] at hlevel
      obtain ⟨hsorted, hbelow⟩ := ih hlevel hqueue hspan
      refine ⟨List.pairwise_cons.2 ⟨hbelow, hsorted⟩, ?_⟩
      intro r hr
      rcases List.mem_cons.1 hr with rfl | hr
      · exact hlow
      · exact Nat.le_trans hlow (hbelow r hr)

end Refreshes

/-- A variable lies downstream of another if it reads it, directly or through others. -/
def Downstream (w : Wiring) (source name : String) : Prop :=
  Relation.TransGen (fun a b => b ∈ w.readers a) source name

/-- What holds of all pending variables, and of every reader of one of which it holds, holds of all
that are re-read. -/
theorem Refreshes.forall_names {pending refreshed : List String} {rounds : List Round}
    {s s' : Scene}
    (h : Refreshes pending refreshed rounds s s') {p : String → Prop}
    (hpending : ∀ n ∈ pending, p n)
    (hreaders : ∀ a, p a → ∀ b ∈ s.frame.wiring.readers a, p b) : ∀ n ∈ Round.names rounds, p n :=
  h.course.forall_taken hpending hreaders

/-- **A propagation stays downstream of what has changed.** -/
theorem Refreshes.downstream {changed : List String} {rounds : List Round} {s s' : Scene}
    (h : Refreshes (changed.flatMap s.frame.wiring.readers) [] rounds s s') {name : String}
    (hname : name ∈ Round.names rounds) :
    ∃ source ∈ changed, Downstream s.frame.wiring source name := by
  refine h.forall_names (p := fun n => ∃ source ∈ changed, Downstream s.frame.wiring source n) ?_ ?_
    _ hname
  · intro n hn
    obtain ⟨source, hsource, hreader⟩ := List.mem_flatMap.1 hn
    exact ⟨source, hsource, .single hreader⟩
  · rintro a ⟨source, hsource, hpath⟩ b hreader
    exact ⟨source, hsource, .tail hpath hreader⟩

end Flow

end CallFlow
