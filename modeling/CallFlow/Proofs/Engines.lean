import CallFlow.Proofs.Stages

/-!
# Engines that are used again

An engine may execute one target after the other.  Nothing of what it did before shows in the
result, the visits and the trace of an execution (`Engine.executeWithin_withLast`).  It can show
in the snapshot: what the last run has left is replaced when an execution opens, and stays when an
execution is refused before that (`Engine.Refuses`).  The main statement is
`Engine.repeats_of_used`.
-/

namespace CallFlow

namespace Engine

/-- An engine that was made new and has executed targets since, whatever came of them. -/
inductive Used (graph : Graph) (host : Host) (config : Config) : Engine → Prop where
  | new : Used graph host config (.new graph host config)
  | executed {e e' : Engine} {fuel : Nat} {target : RunTarget} {inputs : List (String × Value)}
      {r : Except RunFault (List (String × Value))} (before : Used graph host config e)
      (execute : e.executeWithin fuel target inputs = some (r, e')) : Used graph host config e'

/-- The engine with something that a run has left, unless it has something itself. -/
def withLast (e : Engine) (last : Option LastRun) : Engine := { e with last := e.last.or last }

variable {e e' : Engine} {fuel : Nat} {target : RunTarget} {inputs : List (String × Value)}
  {r : Except RunFault (List (String × Value))}

/-! ## Executions with something left from before -/

theorem runFunction_withLast (e : Engine) (last : Option LastRun) (fuel : Nat) (id : FunctionId)
    (inputs : List (String × Value)) :
    (e.withLast last).runFunction fuel id inputs
      = (e.runFunction fuel id inputs).map fun ran => (ran.1, ran.2.withLast last) := by
  unfold runFunction
  rw [show (e.withLast last).context = e.context from rfl]
  cases e.context.graph.function id with
  | error fault => rfl
  | ok d =>
      simp only []
      cases bindInputs d
        (AppliedCall.ofDescription d (.entry id) .stop none e.context.checked).terminals
        inputs with
      | error fault => rfl
      | ok ts =>
          simp only [show (e.withLast last).log = e.log from rfl]
          split
          · rfl
          · simp [withLast]

theorem runStandalone_withLast (e : Engine) (last : Option LastRun) (fuel : Nat)
    (id : CompositionId)
    (inputs : List (String × Value)) :
    (e.withLast last).runStandalone fuel id inputs
      = (e.runStandalone fuel id inputs).map fun ran => (ran.1, ran.2.withLast last) := by
  unfold runStandalone
  rw [show (e.withLast last).context = e.context from rfl]
  cases Frame.ofGraph e.context.graph id e.context.checked with
  | error fault => rfl
  | ok f =>
      simp only []
      cases bindVariables f.reset inputs with
      | error fault => rfl
      | ok f' =>
          simp only [show (e.withLast last).log = e.log from rfl]
          split
          · rfl
          · simp [withLast]

theorem runTarget_withLast (e : Engine) (last : Option LastRun) (fuel : Nat) (target : RunTarget)
    (inputs : List (String × Value)) :
    (e.withLast last).runTarget fuel target inputs
      = (e.runTarget fuel target inputs).map fun ran => (ran.1, ran.2.withLast last) := by
  cases target with
  | function id => exact runFunction_withLast e last fuel id inputs
  | composition id =>
      unfold runTarget
      rw [show (e.withLast last).context = e.context from rfl]
      simp only []
      cases e.context.graph.composition id with
      | error fault => rfl
      | ok c =>
          simp only []
          cases c.represents with
          | some function => exact runFunction_withLast e last fuel function inputs
          | none => exact runStandalone_withLast e last fuel id inputs

/-- **What an execution does is the same whatever a run before has left**, but that this stays
unless the execution leaves something itself. -/
theorem executeWithin_withLast (e : Engine) (last : Option LastRun) (fuel : Nat)
    (target : RunTarget)
    (inputs : List (String × Value)) :
    (e.withLast last).executeWithin fuel target inputs
      = (e.executeWithin fuel target inputs).map fun ran => (ran.1, ran.2.withLast last) := by
  unfold executeWithin
  have hstart : ({ e.withLast last with log := Log.start (e.withLast last).tracing } : Engine)
      = ({ e with log := Log.start e.tracing } : Engine).withLast last := rfl
  rw [hstart, runTarget_withLast]
  cases ({ e with log := Log.start e.tracing } : Engine).runTarget fuel target inputs with
  | none => rfl
  | some ran => rfl

/-! ## Used engines and new ones -/

variable {graph : Graph} {host : Host} {config : Config}

/-- A used engine differs from a new one in its log and in what its last run has left. -/
theorem Used.eq (h : Used graph host config e) :
    e = { (Engine.new graph host config).withLast e.last with log := e.log } := by
  have hkept : e.context = ⟨graph, host, config.checked⟩ ∧ e.tracing = config.tracing := by
    induction h with
    | new => exact ⟨rfl, rfl⟩
    | executed _ hexecute ih =>
        obtain ⟨r₁, hends, -⟩ := ends_of_executeWithin hexecute
        cases hends with
        | refused _ | called _ _ | ran _ _ => exact ih
  obtain ⟨context, tracing, log, last⟩ := e
  obtain ⟨rfl, rfl⟩ := hkept
  rfl

/-- What can be seen of an execution in a used engine and of the same execution in a new one, with
the engines before it and after it. -/
structure Repeats (e n e' n' : Engine) (target : RunTarget) (inputs : List (String × Value))
    (r : Except RunFault (List (String × Value))) : Prop where
  visits : e'.visits = n'.visits
  trace : e'.trace? = n'.trace?
  /-- The snapshot is the same if the execution opens. -/
  opened : (∃ stage, n.Opens target inputs stage) → e'.snapshot? = n'.snapshot?
  /-- Otherwise the execution fails, and what is shown is what was shown before it. -/
  refused : (¬ ∃ stage, n.Opens target inputs stage) →
    (∃ fault, r = .error fault) ∧ n'.snapshot? = none ∧ e'.snapshot? = e.snapshot?

/-- **What an execution shows in an engine that was used before**: the result, the visits and the
trace are those in a new engine.  So is the snapshot, unless the execution fails before it opens;
then it is still that of an earlier execution. -/
theorem repeats_of_used (hused : Used graph host config e) (fuel : Nat) (target : RunTarget)
    (inputs : List (String × Value)) :
    (e.executeWithin fuel target inputs = none ↔
      (Engine.new graph host config).executeWithin fuel target inputs = none) ∧
    ∀ {r n'}, (Engine.new graph host config).executeWithin fuel target inputs = some (r, n') →
      ∃ e', e.executeWithin fuel target inputs = some (r, e') ∧
        Repeats e (Engine.new graph host config) e' n' target inputs r := by
  have hsame : e.executeWithin fuel target inputs
      = ((Engine.new graph host config).executeWithin fuel target inputs).map fun ran =>
          (ran.1, ran.2.withLast e.last) := by
    rw [← executeWithin_withLast]
    -- an execution begins by writing a new log, so the old one does not matter
    have hlog := congrArg (fun x : Engine => x.executeWithin fuel target inputs) hused.eq
    exact hlog
  refine ⟨by rw [hsame, Option.map_eq_none_iff], fun {r n'} hn => ?_⟩
  rw [hn] at hsame
  refine ⟨_, hsame, rfl, rfl, ?_, ?_⟩
  · rintro ⟨stage, hopens⟩
    obtain ⟨r₁, hends, -⟩ := ends_of_executeWithin hn
    cases hends with
    | refused hrefuses => exact absurd hopens hrefuses.not_opens
    | called _ _ | ran _ _ => rfl
  · intro hnot
    obtain ⟨r₁, hends, rfl⟩ := ends_of_executeWithin hn
    cases hends with
    | called hopens _ | ran hopens _ => exact absurd ⟨_, hopens⟩ hnot
    | @refused fault _ =>
        refine ⟨?_, rfl, rfl⟩
        unfold escaped
        split
        · exact ⟨_, rfl⟩
        · exact ⟨fault, rfl⟩

/-- After a run, an execution that fails at an unknown input still shows the variables of that
run. -/
theorem repeats_of_used_sample : ∃ e e' n' : Engine,
    Used Sample.context.graph Sample.host { tracing := true } e ∧
    (new Sample.context.graph Sample.host { tracing := true }).executeWithin 2 (.composition ⟨0⟩)
      [("w", .int 1)] = some (.error (.unknownInput "w" (.composition "branching")), n') ∧
    e.executeWithin 2 (.composition ⟨0⟩) [("w", .int 1)]
      = some (.error (.unknownInput "w" (.composition "branching")), e') ∧
    Repeats e (new Sample.context.graph Sample.host { tracing := true }) e' n' (.composition ⟨0⟩)
      [("w", .int 1)] (.error (.unknownInput "w" (.composition "branching"))) ∧
    n'.snapshot? = none ∧
    e'.snapshot?.map (·.view.vars.map (·.name)) = some ["flag", "v"] := by
  have hcheck : ((new Sample.context.graph Sample.host { tracing := true }).executeWithin 2
      (.composition ⟨0⟩) []).any (fun ran =>
        ran.2.snapshot?.map (·.view.vars.map (·.name)) == some ["flag", "v"]) = true := by
    decide +kernel
  obtain ⟨⟨r, e⟩, hexecute, hsnapshot⟩ := (Option.any_eq_true ..).1 hcheck
  have hused : Used Sample.context.graph Sample.host { tracing := true } e :=
    .executed .new hexecute
  have hn : (new Sample.context.graph Sample.host { tracing := true }).executeWithin 2
    (.composition ⟨0⟩)
      [("w", .int 1)] = some (.error (.unknownInput "w" (.composition "branching")),
        new Sample.context.graph Sample.host { tracing := true }) := rfl
  obtain ⟨e', he, hrepeats⟩ := (repeats_of_used hused 2 (.composition ⟨0⟩) [("w", .int 1)]).2 hn
  refine ⟨e, e', _, hused, hn, he, hrepeats, rfl, ?_⟩
  have hrefuses :
      (new Sample.context.graph Sample.host { tracing := true }).Refuses (.composition ⟨0⟩)
      [("w", .int 1)] (.unknownInput "w" (.composition "branching")) :=
    .boundVariables rfl rfl rfl Sample.ofGraph_eq rfl
  rw [(hrepeats.refused fun ⟨_, hopens⟩ => hrefuses.not_opens hopens).2.2]
  exact beq_iff_eq.1 hsnapshot

end Engine

end CallFlow
