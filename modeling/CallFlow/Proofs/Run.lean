import CallFlow.Proofs.Walk

/-!
# Runs

A run is a sequence of visits (`Walk.Reaches`): every state between two visits, and the state in
which the walk ends, is reached with a history of the visits that executed their calls
(`Walk.steps_reaches`).  Whatever holds of every visit therefore holds of every run.  The trace
has the same history at the depth of the run (`Walk.Reaches.trace`), since bodies trace deeper
than the call around them (`Walk.deep_runner`).
-/

namespace CallFlow

/-! ## What is traced -/

/-- Between the two logs nothing was traced but visits at a depth or deeper. -/
def Log.Deepens (depth : Nat) (l l' : Log) : Prop :=
  ∃ entries : List TraceEntry, l'.trace = l.trace.map (entries ++ ·) ∧
    ∀ e ∈ entries, depth ≤ e.depth

namespace Log.Deepens

variable {depth : Nat} {l l' l'' : Log}

theorem of_trace_eq (h : l'.trace = l.trace) : l.Deepens depth l' :=
  ⟨[], by simp [h], by simp⟩

theorem trans (h : l.Deepens depth l') (h' : l'.Deepens depth l'') : l.Deepens depth l'' := by
  obtain ⟨entries, htrace, hdepth⟩ := h
  obtain ⟨entries', htrace', hdepth'⟩ := h'
  refine ⟨entries' ++ entries, ?_, ?_⟩
  · rw [htrace', htrace, Option.map_map]
    congr 1
    funext t
    exact (List.append_assoc ..).symm
  · intro e he
    rcases List.mem_append.1 he with he | he
    · exact hdepth' e he
    · exact hdepth e he

end Log.Deepens

/-- What bodies trace lies as deep as they run, or deeper. -/
def Runner.Deep (run : Runner) : Prop :=
  ∀ {depth body ts log r ran}, run depth body ts log = some (r, ran) → log.Deepens depth ran.log

namespace Context

variable {ctx : Context}

theorem log_invoke {d : Description} {a a' : Active} {r : Except RunFault Unit}
    (h : ctx.invoke d a = (r, a')) : a'.log = a.log := by
  cases invokes_of_invoke h <;> rfl

theorem deepens_execute {run : Runner} (hrun : run.Deep) {depth : Nat} {a a' : Active}
    {r : Except RunFault Unit} (h : ctx.execute run depth a = some (r, a')) :
    a.log.Deepens (depth + 1) a'.log := by
  cases performs_of_execute h with
  | unknown _ | unprepared _ _ _ | notSetUp _ _ _ _ => exact .of_trace_eq rfl
  | invoked _ _ hinvoke => exact .of_trace_eq (by rw [log_invoke hinvoke])
  | ran _ _ _ _ hran => exact hrun hran

end Context

namespace Walk

/-- **A visit traces itself at its own depth, and all else deeper.** -/
theorem Executes.trace {ctx : Context} {run : Runner} (hrun : run.Deep) {depth : Nat} {w w' : Walk}
    {v : Visit} {r : Except RunFault (Option CallId)} (h : Executes ctx run depth w v r w') :
    ∃ e nested, w'.log.trace = w.log.trace.map (e :: nested ++ ·) ∧ e.depth = depth ∧
      e.call = v.call ∧ e.outcome = v.outcome ∧ ∀ e ∈ nested, depth + 1 ≤ e.depth := by
  obtain ⟨hingest, hfound, hexecute, houtcome, -, hafter⟩ := h
  rename_i s call result a
  obtain ⟨nested, htrace, hdeep⟩ := Context.deepens_execute hrun hexecute
  refine ⟨⟨depth, s.frame.id, v.call, call.function, v.outcome⟩, nested, ?_, rfl, rfl, rfl, hdeep⟩
  have hlog : w'.log = a.log.record ⟨depth, s.frame.id, v.call, call.function, v.outcome⟩ := by
    rw [houtcome]
    exact log_afterCall hafter
  show w'.log.trace = _
  rw [hlog]
  show a.log.trace.map _ = _
  rw [htrace, Option.map_map]
  rfl

theorem deepens_around {walk : Option CallId → Walk → Fueled Unit Walk} {depth : Nat}
    (hwalk : ∀ {next w r w'}, walk next w = some (r, w') → w.log.Deepens depth w'.log) {w w' : Walk}
    {r : Except RunFault Unit} (h : around walk w = some (r, w')) : w.log.Deepens depth w'.log := by
  rcases around_eq_some h with ⟨fault, s, -, -, rfl⟩ | ⟨s, r₁, w₁, -, hsteps, hend⟩
  · exact .of_trace_eq rfl
  · have hwalked := hwalk hsteps
    rcases hend with ⟨-, rfl, -⟩ | ⟨s₁, -, -, -, rfl⟩
    · exact hwalked
    · exact hwalked

theorem deep_of_deepens {walk : Nat → Option CallId → Walk → Fueled Unit Walk}
    (hwalk : ∀ {depth next w r w'}, walk depth next w = some (r, w') → w.log.Deepens depth w'.log) :
    (runner walk).Deep := by
  intro depth body ts log r ran h
  obtain ⟨w, hrun, rfl⟩ := runner_eq_some h
  exact deepens_around hwalk hrun

theorem deepens_visit {ctx : Context} {run : Runner} (hrun : run.Deep) {depth : Nat} {id : CallId}
    {w w' : Walk} {r : Except RunFault (Option CallId)}
    (h : visit ctx run depth id w = some (r, w')) :
    w.log.Deepens depth w'.log := by
  rcases visit_cases h with ⟨fault, -, hrefuses⟩ | ⟨v, -, hexecutes⟩
  · exact .of_trace_eq hrefuses.trace
  · obtain ⟨e, nested, htrace, hdepth, -, -, hnested⟩ := hexecutes.trace hrun
    refine ⟨e :: nested, htrace, ?_⟩
    intro e' he'
    rcases List.mem_cons.1 he' with rfl | he'
    · exact Nat.le_of_eq hdepth.symm
    · exact Nat.le_of_succ_le (hnested e' he')

theorem deepens_steps {ctx : Context} {fuel depth : Nat} {next : Option CallId} {w w' : Walk}
    {r : Except RunFault Unit} (h : steps ctx fuel depth next w = some (r, w')) :
    w.log.Deepens depth w'.log :=
  steps_induction (R := fun depth w w' => w.log.Deepens depth w'.log) (fun _ _ => .of_trace_eq rfl)
    .trans (fun ih hvisit => deepens_visit (deep_of_deepens ih) hvisit) h

/-- **What runs of bodies trace lies deeper than the call around them.** -/
theorem deep_runner (ctx : Context) (fuel : Nat) : (runner (steps ctx fuel)).Deep :=
  deep_of_deepens deepens_steps

/-! ## Runs -/

/-- The calls that have completed, the last of which stands first. -/
def completedCalls (history : List Visit) : List CallId :=
  (history.filter fun v => v.outcome == .completed).map (·.call)

/-- A run that begins in `w₀` reaches `w` at a depth, with the visits that have executed their
calls, the last of which stands first, and with the result of the last visit: where control goes
next, or why the walk ends. -/
inductive Reaches (ctx : Context) (depth : Nat) (w₀ : Walk) :
    List Visit → Except RunFault (Option CallId) → Walk → Prop where
  | seeded {s : Scene} (seeded : Flow.seed.run w₀.scene = (.ok (), s)) :
      Reaches ctx depth w₀ [] (.ok s.frame.start) { w₀ with scene := s }
  | refused {history : List Visit} {id : CallId} {w w' : Walk} {fault : RunFault}
      (before : Reaches ctx depth w₀ history (.ok (some id)) w) (refuses : Refuses id w fault w') :
      Reaches ctx depth w₀ history (.error fault) w'
  | executed {history : List Visit} {fuel : Nat} {v : Visit} {w w' : Walk}
      {r : Except RunFault (Option CallId)}
      (before : Reaches ctx depth w₀ history (.ok (some v.call)) w)
      (executes : Executes ctx (runner (steps ctx fuel)) depth w v r w') :
      Reaches ctx depth w₀ (v :: history) r w'

/-- **Where a walk ends is reached by visits.** -/
theorem steps_reaches {ctx : Context} {fuel depth : Nat} {w₀ w w' : Walk} {history : List Visit}
    {next : Option CallId} {r : Except RunFault Unit}
    (hreaches : Reaches ctx depth w₀ history (.ok next) w)
    (h : steps ctx fuel depth next w = some (r, w')) :
    ∃ history', Reaches ctx depth w₀ history' (r.map fun _ => none) w' := by
  refine induction_on_steps
    (P := fun depth next w r w' => ∀ history, Reaches ctx depth w₀ history (.ok next) w →
    ∃ history', Reaches ctx depth w₀ history' (r.map fun _ => none) w') ?_ ?_ ?_ h history hreaches
  · intro depth w history hreaches
    exact ⟨history, hreaches⟩
  · intro fuel depth id w fault w' _ hvisit history hreaches
    rcases visit_cases hvisit with ⟨fault', hr, hrefuses⟩ | ⟨v, rfl, hexecutes⟩
    · obtain rfl := Except.error.inj hr
      exact ⟨history, hreaches.refused hrefuses⟩
    · exact ⟨v :: history, hreaches.executed hexecutes⟩
  · intro fuel depth id w next w₁ r w' _ hvisit hlater history hreaches
    rcases visit_cases hvisit with ⟨fault', hr, -⟩ | ⟨v, rfl, hexecutes⟩
    · exact absurd hr (by simp)
    · exact hlater (v :: history) (hreaches.executed hexecutes)

namespace Reaches

variable {ctx : Context} {depth : Nat} {w₀ w : Walk} {history : List Visit}
  {r : Except RunFault (Option CallId)}

theorem keeps (h : Reaches ctx depth w₀ history r w) : w₀.scene.Keeps w.scene := by
  induction h with
  | seeded hseed =>
      have hseeded := (Flow.evolves_seed w₀.scene).keeps
      rwa [hseed] at hseeded
  | refused _ hrefuses ih => exact ih.trans hrefuses.evolves.keeps
  | executed _ hexecutes ih => exact ih.trans (hexecutes.keeps (faithful_runner ctx _))

/-- **The wiring of a reached state is that of the beginning after the calls that have
completed.** -/
theorem wiring (h : Reaches ctx depth w₀ history r w) :
    w.scene.frame.wiring = w₀.scene.frame.wiring.completeAll (completedCalls history) := by
  induction h with
  | seeded hseed =>
      have hseeded := (Flow.evolves_seed w₀.scene).wiring
      rwa [hseed] at hseeded
  | refused _ hrefuses ih => exact hrefuses.evolves.wiring.trans ih
  | executed _ hexecutes ih =>
      rw [hexecutes.wiring (faithful_runner ctx _), ih]
      split
      · rename_i hcompleted
        simp [completedCalls, hcompleted, Wiring.completeAll]
      · rename_i hne
        simp [completedCalls, hne]

/-- **The visits of a run are what was traced at its depth**, in the same order. -/
theorem trace (h : Reaches ctx depth w₀ history r w) :
    ∃ entries, w.log.trace = w₀.log.trace.map (entries ++ ·) ∧
      (entries.filter fun e => e.depth == depth).map (fun e => (e.call, e.outcome))
        = history.map fun v => (v.call, v.outcome) := by
  induction h with
  | seeded _ => exact ⟨[], by simp, rfl⟩
  | refused _ hrefuses ih =>
      obtain ⟨entries, htrace, hfilter⟩ := ih
      exact ⟨entries, hrefuses.trace.trans htrace, hfilter⟩
  | @executed _ _ v _ _ _ _ hexecutes ih =>
      obtain ⟨entries, htrace, hfilter⟩ := ih
      obtain ⟨e, nested, htrace', hdepth, hcall, houtcome, hnested⟩ :=
        hexecutes.trace (deep_runner ctx _)
      have hdeeper : nested.filter (fun e => e.depth == depth) = [] := by
        apply List.filter_eq_nil_iff.2
        intro e' he' hc
        have hle := hnested e' he'
        have heq : e'.depth = depth := by simpa using hc
        omega
      refine ⟨e :: nested ++ entries, ?_, ?_⟩
      · rw [htrace', htrace, Option.map_map]
        congr 1
        funext t
        exact (List.append_assoc ..).symm
      · simp [hdepth, hdeeper, hfilter, hcall, houtcome]

end Reaches

end Walk

end CallFlow
