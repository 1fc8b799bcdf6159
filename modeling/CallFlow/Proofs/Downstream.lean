import CallFlow.Proofs.Partition
import CallFlow.Proofs.Propagation

/-!
# Where propagations go

Mappings between variables may run in circles.  A propagation comes to its end all the same, since
it takes up no variable twice, and it goes nowhere but downstream of the variables that have
changed (`Flow.propagate_confined`).  Whether it succeeds or not, calls, boundary and authority
are as they were.
-/

namespace CallFlow

/-! ## What can change -/

/-- The scenes are the same but for variables, and of these but for the named ones. -/
structure Scene.Varies (names : List String) (s s' : Scene) : Prop where
  rest : s' = { s with frame.vars := s'.frame.vars }
  vars : ∀ name, name ∉ names → Assoc.find? s'.frame.vars name = Assoc.find? s.frame.vars name

namespace Scene.Varies

variable {names names' : List String} {s s' s'' : Scene}

theorem refl (names : List String) (s : Scene) : s.Varies names s := ⟨rfl, fun _ _ => rfl⟩

theorem mono (h : s.Varies names s') (hnames : ∀ name ∈ names, name ∈ names') :
    s.Varies names' s' :=
  ⟨h.rest, fun name hname => h.vars name fun hc => hname (hnames name hc)⟩

theorem trans (h : s.Varies names s') (h' : s'.Varies names s'') : s.Varies names s'' where
  rest := by rw [h'.rest, h.rest]
  vars name hname := (h'.vars name hname).trans (h.vars name hname)

end Scene.Varies

/-- Whatever is written to a variable changes no other. -/
theorem Scene.varies_write (s : Scene) (name : String) (writes : List (Option Strategy × Value)) :
    s.Varies [name] (s.write (.variable name) writes).2 := by
  cases writes with
  | nil => exact .refl _ s
  | cons w rest =>
      refine ⟨rfl, fun n hn => ?_⟩
      have hne : name ≠ n := fun heq => hn (by simp [heq])
      show Assoc.find? (Assoc.insert s.frame.vars name _) n = _
      rw [Assoc.find?_insert, if_neg hne]

namespace Flow

theorem varies_writeGroup (s : Scene) (name : String) (group : List Mapping) :
    s.Varies [name] ((writeGroup (.variable name) group).run s).2 := by
  rw [run_writeGroup]
  split
  · exact s.varies_write name _
  · exact .refl _ s

namespace Course

variable {pending refreshed taken taken' : List String}
  {result result' : Except RunFault (List String)}
  {s s' s'' : Scene}

/-- **Nothing changes but variables that are taken up.** -/
theorem varies (h : Course pending refreshed taken result s s') : s.Varies taken s' := by
  induction h with
  | done _ s => exact .refl _ s
  | again _ _ ih => exact ih
  | bare _ _ _ ih => exact ih
  | @fails name _ _ s _ group _ _ _ hfirst =>
      have hvaries := varies_writeGroup s name group
      rwa [hfirst] at hvaries
  | @round name _ _ _ _ s _ _ group _ _ _ hfirst _ ih =>
      have hvaries := varies_writeGroup s name group
      rw [hfirst] at hvaries
      exact (hvaries.mono (by simp)).trans (ih.mono fun _ hn => List.mem_cons_of_mem _ hn)

/-- A refreshing has one course. -/
theorem unique (h : Course pending refreshed taken result s s')
    (h' : Course pending refreshed taken' result' s s'') :
    taken = taken' ∧ result = result' ∧ s' = s'' := by
  induction h generalizing taken' result' s'' with
  | done _ _ =>
      cases h'
      exact ⟨rfl, rfl, rfl⟩
  | again hold _ ih =>
      cases h' with
      | again _ hrest => exact ih hrest
      | bare hnew _ _ | fails hnew _ _ | round hnew _ _ _ => exact absurd hold hnew
  | bare hnew hnone _ ih =>
      cases h' with
      | again hold _ => exact absurd hold hnew
      | bare _ _ hrest => exact ih hrest
      | fails _ hcurrent _
      | round _ hcurrent _ _ => exact absurd (hnone.symm.trans hcurrent) (by simp)
  | fails hnew hcurrent hfirst =>
      cases h' with
      | again hold _ => exact absurd hold hnew
      | bare _ hnone _ => exact absurd (hnone.symm.trans hcurrent) (by simp)
      | fails _ hcurrent' hfirst' =>
          obtain rfl := Option.some.inj (hcurrent.symm.trans hcurrent')
          obtain ⟨hfault, rfl⟩ := Prod.mk.inj (hfirst.symm.trans hfirst')
          exact ⟨rfl, by rw [Except.error.inj hfault], rfl⟩
      | round _ hcurrent' hfirst' _ =>
          obtain rfl := Option.some.inj (hcurrent.symm.trans hcurrent')
          exact absurd (hfirst.symm.trans hfirst') (by simp)
  | round hnew hcurrent hfirst _ ih =>
      cases h' with
      | again hold _ => exact absurd hold hnew
      | bare _ hnone _ => exact absurd (hnone.symm.trans hcurrent) (by simp)
      | fails _ hcurrent' hfirst' =>
          obtain rfl := Option.some.inj (hcurrent.symm.trans hcurrent')
          exact absurd (hfirst.symm.trans hfirst') (by simp)
      | round _ hcurrent' hfirst' hrest' =>
          obtain rfl := Option.some.inj (hcurrent.symm.trans hcurrent')
          obtain ⟨hb, rfl⟩ := Prod.mk.inj (hfirst.symm.trans hfirst')
          obtain rfl := Except.ok.inj hb
          obtain ⟨rfl, rfl, rfl⟩ := ih hrest'
          exact ⟨rfl, rfl, rfl⟩

end Course

end Flow

/-! ## Where a propagation goes -/

/-- A mapping passes the first variable on to the second. -/
def Wiring.Feeds (w : Wiring) (source name : String) : Prop :=
  ∃ m ∈ w.mappings, m.source = .variable source ∧ m.target = .variable name

theorem Wiring.Built.feeds_of_mem_readers {w : Wiring} (h : w.Built) {source name : String}
    (hname : name ∈ w.readers source) : w.Feeds source name := by
  rw [Wiring.readers_eq] at hname
  obtain ⟨m, hm, htarget, -, hsource⟩ := h.mem_variablesWith_iff.1 hname
  exact ⟨m, hm, Mapping.readsVariable_iff.1 hsource, htarget⟩

namespace Flow

/-- **A propagation ends and stays downstream**, in a composition with whatever mappings, from any
state and whatever has changed.  It takes its course to success or to a failure, and more rounds
would not change that.  No variable is taken up twice, and none that cannot be reached from a
changed one by mappings between variables; nothing else changes. -/
theorem propagate_confined {s : Scene} (hb : s.frame.wiring.Built) (changed : List String) :
    ∃ taken,
      Course (changed.flatMap s.frame.wiring.readers) [] taken ((propagate changed).run s).1 s
        ((propagate changed).run s).2 ∧
      (∀ fuel, s.frame.wiring.capacity (changed.flatMap s.frame.wiring.readers) [] < fuel →
        (refresh fuel (changed.flatMap s.frame.wiring.readers) []).run s =
          (propagate changed).run s) ∧
      taken.Nodup ∧
      (∀ name ∈ taken, ∃ source ∈ changed, Relation.TransGen s.frame.wiring.Feeds source name) ∧
      s.Varies taken ((propagate changed).run s).2 := by
  obtain ⟨taken, hcourse⟩ := course_of_propagate hb changed
  refine ⟨taken, hcourse, fun fuel hfuel => ?_, hcourse.nodup.1, ?_, hcourse.varies⟩
  · obtain ⟨taken', hcourse'⟩ := course_of_refresh hb hfuel
    obtain ⟨-, hresult, hscene⟩ := hcourse'.unique hcourse
    exact Prod.ext hresult hscene
  · refine hcourse.forall_taken ?_ ?_
    · intro name hname
      obtain ⟨source, hsource, hreader⟩ := List.mem_flatMap.1 hname
      exact ⟨source, hsource, .single (hb.feeds_of_mem_readers hreader)⟩
    · rintro a ⟨source, hsource, hpath⟩ name hreader
      exact ⟨source, hsource, .tail hpath (hb.feeds_of_mem_readers hreader)⟩

end Flow

namespace Sample

/-- Two variables that read each other, the first of which has a value. -/
def circling : Scene where
  frame := {
    id := ⟨0⟩, name := "circle", represents := none, start := none, calls := []
    wiring := match Wiring.build ⟨0⟩ [
        ⟨.variable "u", none, .variable "v", none, none⟩,
        ⟨.variable "v", none, .variable "u", none, none⟩] with
      | .ok w => w
      | .error _ => .empty ⟨0⟩
    vars := [("u", { Terminal.ofVariable "u" with cell := ⟨.scalar (.int 1), false⟩ }),
      ("v", .ofVariable "v")] }
  boundary := none

end Sample

/-- The second variable takes the value of the first and gives it back. -/
theorem Flow.propagate_confined_sample :
    ∃ taken s', (propagate ["u"]).run Sample.circling = (.ok ["v", "u"], s') ∧
    Course ["v"] [] taken (.ok ["v", "u"]) Sample.circling s' ∧
    (refresh 100 ["v"] []).run Sample.circling = (.ok ["v", "u"], s') ∧ taken.Nodup ∧
    (∀ name ∈ taken, Relation.TransGen Sample.circling.frame.wiring.Feeds "u" name) ∧
    Sample.circling.Varies taken s' ∧ s'.peek (.variable "v") = some (.int 1) := by
  have hpropagate : (propagate ["u"]).run Sample.circling = (.ok ["v", "u"], _) := rfl
  obtain ⟨taken, hcourse, henough, hnodup, hdownstream, hvaries⟩ :=
    propagate_confined (s := Sample.circling) rfl ["u"]
  refine ⟨taken, _, hpropagate, hcourse, henough 100 (by decide), hnodup,
    fun name hname => ?_, hvaries, rfl⟩
  obtain ⟨source, hsource, hpath⟩ := hdownstream name hname
  obtain rfl := List.mem_singleton.1 hsource
  exact hpath

end CallFlow
