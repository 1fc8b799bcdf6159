import CallFlow.Proofs.CallTree
import CallFlow.Proofs.Integrity
import CallFlow.Proofs.Structure

/-!
# Where compositions are executed

A function has one body, but several compositions may be added for it: each takes the place of the
one before as the body, and the one before goes on representing the function.  So the body is the
latest of them (`Graph.IsLatest`) in every graph that was built, because a new composition has the
greatest identity of all and nothing else touches a body (`Graph.Change.bodiesLast`).

A composition that represents a function is executed as this function.  Its executions take place
in the body of the function, which is the composition itself only if it is the latest
(`Graph.Home`), and what they trace shows it: the outermost visits are those of calls of that body
(`Engine.home_of_executeWithin`).
-/

namespace CallFlow

namespace Graph

variable {g g' : Graph}

/-! ## The latest composition of a function -/

/-- The composition represents the function, and none that was added later does. -/
structure IsLatest (g : Graph) (function : FunctionId) (id : CompositionId) : Prop where
  represents : ∃ c, g.composition id = .ok c ∧ c.represents = some function
  last : ∀ id' c', g.composition id' = .ok c' → c'.represents = some function → id'.val ≤ id.val

theorem IsLatest.unique {function : FunctionId} {id id' : CompositionId}
    (h : g.IsLatest function id)
    (h' : g.IsLatest function id') : id = id' := by
  obtain ⟨c, hc, hrepresents⟩ := h.represents
  obtain ⟨c', hc', hrepresents'⟩ := h'.represents
  have hle : id.val ≤ id'.val := h'.last id c hc hrepresents
  have hge : id'.val ≤ id.val := h.last id' c' hc' hrepresents'
  exact congrArg CompositionId.mk (Nat.le_antisymm hle hge)

/-- A function that a composition represents has a body, and the composition was not added after
it. -/
def BodiesLast (g : Graph) : Prop :=
  ∀ id c function, g.composition id = .ok c → c.represents = some function →
    ∃ d body, g.function function = .ok d ∧ d.body = some body ∧ id.val ≤ body.val

theorem BodiesLast.isLatest (h : g.BodiesLast) (hg : g.Resolved) {function : FunctionId}
    {d : Description}
    {body : CompositionId} (hd : g.function function = .ok d) (hbody : d.body = some body) :
    g.IsLatest function body := by
  refine ⟨hg.bodies function d body hd hbody, fun id c hc hrepresents => ?_⟩
  obtain ⟨d', body', hd', hbody', hle⟩ := h id c function hc hrepresents
  obtain rfl := Except.ok.inj (hd.symm.trans hd')
  obtain rfl := Option.some.inj (hbody.symm.trans hbody')
  exact hle

theorem bodiesLast_empty (name : String) : (Graph.empty name).BodiesLast :=
  fun _ _ _ h => absurd h (by simp [composition_eq_ok, empty])

/-- **Every change leaves the bodies the latest compositions of their functions.** -/
theorem Change.bodiesLast (h : g.Change g') (hg : g.WellFormed) (hlast : g.BodiesLast) :
    g'.BodiesLast := by
  intro id c' function hc' hrepresents
  rcases h.composition hc' with ⟨c, hc, hdevelops⟩ | ⟨name, represents, rfl, hnew⟩
  · obtain ⟨d, body, hd, hbody, hle⟩ :=
      hlast id c function hc (hdevelops.grows.represents ▸ hrepresents)
    obtain ⟨d', hd', -, hlater⟩ := h.function hg hd
    obtain ⟨body', hbody', hle'⟩ := hlater body hbody
    exact ⟨d', body', hd', hbody', hle.trans hle'⟩
  · obtain ⟨d, hd, hbody⟩ := hnew function hrepresents
    exact ⟨d, id, hd, hbody, Nat.le_refl _⟩

theorem Changes.bodiesLast (h : g.Changes g') (hg : g.WellFormed) (hlast : g.BodiesLast) :
    g'.BodiesLast := by
  induction h with
  | refl => exact hlast
  | tail hbefore hchange ih => exact hchange.bodiesLast (Changes.wellFormed hbefore hg) ih

/-- Descriptions may change as they like, as long as they keep their bodies. -/
theorem BodiesLast.modifyFunction (h : g.BodiesLast) (id : FunctionId)
    {f : Description → Description}
    (hf : ∀ d, (f d).body = d.body) :
    ({ g with functions := Assoc.modify g.functions id f } : Graph).BodiesLast := by
  intro id' c function hc hrepresents
  obtain ⟨d, body, hd, hbody, hle⟩ := h id' c function hc hrepresents
  simp only [function_eq_ok, Assoc.find?_modify, function_eq_ok.1 hd, Option.map_some]
  split
  · exact ⟨f d, body, rfl, (hf d).trans hbody, hle⟩
  · exact ⟨d, body, rfl, hbody, hle⟩

/-- **Every operation leaves the bodies the latest compositions of their functions**, whether or not
it succeeds. -/
theorem Operation.bodiesLast_apply (op : Operation) (hg : g.WellFormed) (h : g.BodiesLast) :
    (op.apply g).BodiesLast := by
  by_cases hop : op.isProper g = true
  · exact (op.changes_apply hop).bodiesLast hg h
  · -- the only operation that can be improper attaches a self-output, and leaves bodies alone
    cases op with
    | setSelfOutput function output =>
        simp only [apply, Edit.run_modifyFunction]
        split
        · exact h.modifyFunction function (functionKept_setSelfOutput output).body
        · exact h
    | _ => exact absurd rfl hop

theorem Buildable.bodiesLast (h : g.Buildable) : g.BodiesLast := by
  have hboth : g.WellFormed ∧ g.BodiesLast := by
    refine Buildable.induction (P := fun g => g.WellFormed ∧ g.BodiesLast) h ?_ ?_
    · exact fun name => ⟨wellFormed_empty name, bodiesLast_empty name⟩
    · exact fun op hg => ⟨op.wellFormed_apply hg.1, op.bodiesLast_apply hg.1 hg.2⟩
  exact hboth.2

/-! ## Where executions take place -/

/-- Where executions of the composition take place, with the number of bodies around: in itself, if
it stands by itself, and else in the latest composition of its function. -/
inductive Home (g : Graph) (id : CompositionId) : Nat → CompositionId → Prop where
  | standalone {c : Composition} (composition : g.composition id = .ok c)
      (represents : c.represents = none) :
      Home g id 0 id
  | body {c : Composition} {function : FunctionId} {latest : CompositionId}
      (composition : g.composition id = .ok c) (represents : c.represents = some function)
      (isLatest : g.IsLatest function latest) : Home g id 1 latest

variable {id home : CompositionId} {depth : Nat}

/-- There is one place only. -/
theorem Home.unique {depth' : Nat} {home' : CompositionId} (h : g.Home id depth home)
    (h' : g.Home id depth' home') : depth = depth' ∧ home = home' := by
  cases h with
  | standalone hc hnone =>
      cases h' with
      | standalone _ _ => exact ⟨rfl, rfl⟩
      | body hc' hsome _ =>
          obtain rfl := Except.ok.inj (hc.symm.trans hc')
          exact absurd (hnone.symm.trans hsome) (by simp)
  | body hc hsome hlatest =>
      cases h' with
      | standalone hc' hnone =>
          obtain rfl := Except.ok.inj (hc.symm.trans hc')
          exact absurd (hnone.symm.trans hsome) (by simp)
      | body hc' hsome' hlatest' =>
          obtain rfl := Except.ok.inj (hc.symm.trans hc')
          obtain rfl := Option.some.inj (hsome.symm.trans hsome')
          exact ⟨rfl, hlatest.unique hlatest'⟩

/-- **A composition is executed itself where no later one was added for its function.** -/
theorem Home.eq_self_iff (h : g.Home id depth home) {c : Composition}
    (hc : g.composition id = .ok c) :
    home = id ↔ ∀ function, c.represents = some function →
      ∀ id' c', g.composition id' = .ok c' → c'.represents = some function → id'.val ≤ id.val := by
  cases h with
  | standalone hc' hnone =>
      obtain rfl := Except.ok.inj (hc.symm.trans hc')
      exact ⟨fun _ function hsome => absurd (hnone.symm.trans hsome) (by simp), fun _ => rfl⟩
  | body hc' hsome hlatest =>
      obtain rfl := Except.ok.inj (hc.symm.trans hc')
      constructor
      · rintro rfl function hsome'
        obtain rfl := Option.some.inj (hsome.symm.trans hsome')
        exact hlatest.last
      · exact fun hlast => hlatest.unique ⟨⟨c, hc, hsome⟩, hlast _ hsome⟩

theorem Buildable.exists_home (h : g.Buildable) {c : Composition} (hc : g.composition id = .ok c) :
    ∃ depth home, g.Home id depth home := by
  cases hrepresents : c.represents with
  | none => exact ⟨0, id, .standalone hc hrepresents⟩
  | some function =>
      obtain ⟨d, body, hd, hbody, -⟩ := h.bodiesLast id c function hc hrepresents
      exact ⟨1, body, .body hc hrepresents (h.bodiesLast.isLatest h.wellFormed.resolved hd hbody)⟩

end Graph

/-! ## Executions -/

theorem VisitTree.exists_of_mem_postorders {entry : TraceEntry} {ts : List VisitTree}
    (h : entry ∈ postorders ts) : ∃ t ∈ ts, entry ∈ t.postorder := by
  induction ts with
  | nil => exact absurd h (by simp [postorders])
  | cons t rest ih =>
      rcases List.mem_append.1 h with h | h
      · exact ⟨t, by simp, h⟩
      · obtain ⟨t', ht', hentry⟩ := ih h
        exact ⟨t', List.mem_cons_of_mem _ ht', hentry⟩

/-- The visits of a tree are its root, which is where the tree is, and visits with more bodies
around them. -/
theorem VisitTree.Fits.visitsIn_of_mem {g : Graph} {depth : Nat} {id : CompositionId}
    {t : VisitTree}
    (h : t.Fits g depth id) {entry : TraceEntry} (hentry : entry ∈ t.postorder) :
    entry.VisitsIn g depth id ∨ depth < entry.depth := by
  induction h with
  | leaf hvisits =>
      obtain rfl : entry = _ := by simpa [postorder, postorders] using hentry
      exact .inl hvisits
  | nested hvisits _ _ _ ih =>
      rw [postorder] at hentry
      rcases List.mem_append.1 hentry with hentry | hentry
      · obtain ⟨t, ht, hentry⟩ := exists_of_mem_postorders hentry
        rcases ih t ht hentry with hnested | hdeeper
        · exact .inr (by rw [hnested.depth]; exact Nat.lt_succ_self _)
        · exact .inr (Nat.lt_of_succ_lt hdeeper)
      · obtain rfl := List.mem_singleton.1 hentry
        exact .inl hvisits

namespace Engine

variable {e e' : Engine} {fuel : Nat} {inputs : List (String × Value)}
  {r : Except RunFault (List (String × Value))} {id home : CompositionId} {depth : Nat}

/-- A composition and the one in which its executions take place are executed alike. -/
theorem executeWithin_home (h : e.context.graph.Home id depth home) :
    e.executeWithin fuel (.composition id) inputs =
      e.executeWithin fuel (.composition home) inputs := by
  cases h with
  | standalone _ _ => rfl
  | body hc hsome hlatest =>
      obtain ⟨c', hc', hsome'⟩ := hlatest.represents
      simp only [executeWithin, runTarget, hc, hsome, hc', hsome']

/-- The outermost visits of an execution are where it takes place. -/
theorem Outermost.isHome (hg : e.context.graph.Resolved) (hlast : e.context.graph.BodiesLast)
    (h : e.Outermost (.composition id) depth home) : e.context.graph.Home id depth home := by
  cases h with
  | standalone htarget hc hnone =>
      obtain rfl := RunTarget.composition.inj htarget
      exact .standalone hc hnone
  | @body key d d' _ htarget hcalled hd' hbody =>
      obtain rfl := hg.functions key d hcalled
      cases hc : e.context.graph.composition id with
      | error fault => exact absurd htarget (by simp [functionOf?, hc])
      | ok c =>
          have hsome : c.represents = some d.id := by simpa [functionOf?, hc] using htarget
          exact .body hc hsome (hlast.isLatest hg hd' hbody)

/-- No call is missing when a target of a resolved graph is run. -/
theorem noCallMissing_of_runTarget (hg : e.context.graph.Resolved) {target : RunTarget}
    (htarget : target.Exists e.context.graph) (hlog : e.log = Log.start e.tracing)
    (h : e.runTarget fuel target inputs = some (r, e')) : NoCallMissing r := by
  rintro compositionId call rfl
  exact not_isStructural_runTarget hg htarget hlog h trivial

/-- What an execution traces are visits where it takes place, and visits with more bodies around
them. -/
theorem visits_of_runTarget (hgraph : e.context.graph.Buildable)
    (hlog : e.log = Log.start e.tracing)
    (htracing : e.tracing = true) (hhome : e.context.graph.Home id depth home)
    (hran : e.runTarget fuel (.composition id) inputs = some (r, e')) :
    ∃ trace, e'.trace? = some trace ∧ ∀ entry ∈ trace,
      entry.VisitsIn e.context.graph depth home ∨ depth < entry.depth := by
  have hg : e.context.graph.Resolved := hgraph.wellFormed.resolved
  have htarget : (RunTarget.composition id).Exists e.context.graph := by
    cases hhome with
    | standalone hc _ | body hc _ _ => exact ⟨_, hc⟩
  have hmissing : NoCallMissing r := noCallMissing_of_runTarget hg htarget hlog hran
  obtain ⟨forest, hgrows, hfits⟩ := lists_runTarget hlog hran hmissing
  refine ⟨VisitTree.postorders forest, ?_, fun entry hentry => ?_⟩
  · rw [trace?, hgrows.trace, hlog]
    simp [Log.start, htracing]
  · obtain ⟨t, ht, hentry⟩ := VisitTree.exists_of_mem_postorders hentry
    obtain ⟨depth', home', houtermost, hfits⟩ := hfits t ht
    obtain ⟨rfl, rfl⟩ := hhome.unique (houtermost.isHome hg hgraph.bodiesLast)
    exact hfits.visitsIn_of_mem hentry

/-- **A composition is executed in the latest composition of its function**, or in itself if it
represents none.  The outermost visits that an execution traces, whether or not it succeeds, are
those of calls of that composition, and the execution is the one of that composition in every
respect.  So it is the composition itself that is executed exactly where no later one was added for
its function. -/
theorem home_of_executeWithin (hgraph : e.context.graph.Buildable) (htracing : e.tracing = true)
    {c : Composition} (hc : e.context.graph.composition id = .ok c)
    (h : e.executeWithin fuel (.composition id) inputs = some (r, e')) :
    ∃ depth home trace, e.context.graph.Home id depth home ∧ e'.trace? = some trace ∧
      (∀ entry ∈ trace, depth ≤ entry.depth ∧
        (entry.depth = depth → entry.VisitsIn e.context.graph depth home)) ∧
      e.executeWithin fuel (.composition home) inputs = some (r, e') ∧
      (home = id ↔ ∀ function, c.represents = some function → ∀ id' c',
        e.context.graph.composition id' = .ok c' → c'.represents = some function →
          id'.val ≤ id.val) := by
  obtain ⟨depth, home, hhome⟩ := hgraph.exists_home hc
  have hsame := h
  rw [executeWithin_home hhome] at hsame
  unfold executeWithin at h
  split at h
  · exact absurd h (by simp)
  · rename_i result e₁ hrun
    obtain ⟨-, rfl⟩ := Prod.mk.inj (Option.some.inj h)
    have hstarted : ({ e with log := Log.start e.tracing } : Engine).context.graph.Buildable :=
      hgraph
    obtain ⟨trace, htrace, hvisits⟩ := visits_of_runTarget hstarted rfl htracing hhome hrun
    refine ⟨depth, home, trace, hhome, htrace, fun entry hentry => ?_, hsame, hhome.eq_self_iff hc⟩
    rcases hvisits entry hentry with hhere | hdeeper
    · exact ⟨Nat.le_of_eq hhere.depth.symm, fun _ => hhere⟩
    · exact ⟨Nat.le_of_lt hdeeper, fun heq => absurd heq (Nat.ne_of_gt hdeeper)⟩

end Engine

/-! ### Two compositions for one function -/

namespace Sample

/-- Two compositions for one function, each with a call of its own. -/
def rewritten : List Graph.Operation := [
  .addNative "inner" [] "inner",
  .addFunction "outer" [],
  .addComposition "first" (some ⟨1⟩),
  .addComposition "second" (some ⟨1⟩),
  .addCall ⟨0⟩ ⟨0⟩,
  .sequence ⟨0⟩ [⟨0⟩],
  .addCall ⟨1⟩ ⟨0⟩,
  .sequence ⟨1⟩ [⟨1⟩]]

/-- A tracing engine for them, whose host knows the implementation. -/
def rewriter : Engine :=
  .new (rewritten.foldl Graph.Operation.apply (.empty "rewritten"))
    { resolve _ := some (.reading fun _ => .ok .none), resolveMember _ _ := none }
    { tracing := true }

end Sample

/-- Executing the first composition visits the call of the second one. -/
theorem Engine.home_of_executeWithin_sample :
    Sample.rewriter.context.graph.Buildable ∧ Sample.rewriter.tracing = true ∧
    ∃ c r e' depth home trace, Sample.rewriter.context.graph.composition ⟨0⟩ = .ok c ∧
      Sample.rewriter.executeWithin 2 (.composition ⟨0⟩) [] = some (r, e') ∧
      e'.trace? = some [⟨1, ⟨1⟩, ⟨1⟩, ⟨0⟩, .completed⟩] ∧
      Sample.rewriter.context.graph.Home ⟨0⟩ depth home ∧ e'.trace? = some trace ∧
      (∀ entry ∈ trace, depth ≤ entry.depth ∧
        (entry.depth = depth → entry.VisitsIn Sample.rewriter.context.graph depth home)) ∧
      Sample.rewriter.executeWithin 2 (.composition home) [] = some (r, e') ∧
      (home = ⟨0⟩ ↔ ∀ function, c.represents = some function → ∀ id' c',
        Sample.rewriter.context.graph.composition id' = .ok c' → c'.represents = some function →
          id'.val ≤ 0) := by
  have hgraph : Sample.rewriter.context.graph.Buildable :=
    ⟨by decide +kernel, "rewritten", Sample.rewritten, rfl⟩
  have hcomposition : (Sample.rewriter.context.graph.composition ⟨0⟩).toOption.isSome = true := by
    decide +kernel
  have hcheck : (Sample.rewriter.executeWithin 2 (.composition ⟨0⟩) []).any (fun ran =>
      ran.2.trace? == some [⟨1, ⟨1⟩, ⟨1⟩, ⟨0⟩, .completed⟩]) = true := by decide +kernel
  obtain ⟨⟨r, e'⟩, hran, htrace⟩ := (Option.any_eq_true ..).1 hcheck
  cases hc : Sample.rewriter.context.graph.composition ⟨0⟩ with
  | error fault => exact absurd hcomposition (by simp [hc, Except.toOption])
  | ok c =>
      obtain ⟨depth, home, trace, hhome⟩ := Engine.home_of_executeWithin hgraph rfl hc hran
      exact ⟨hgraph, rfl, c, r, e', depth, home, trace, rfl, hran, by simpa using htrace, hhome⟩

end CallFlow
