import CallFlow.Proofs.ControlPath
import Mathlib.Data.List.Nodup

/-!
# The calls that a composition uses

The used calls of a composition with one start are those that control can reach from it, each
once, the start first and every other one behind a call that leads to it (`Graph.uses_of_start`).
Whatever is not used can be taken away (`Composition.keeping`), and the used calls stay the same,
in the same order.

The search for them keeps an invariant (`Composition.Searching`), which one step lemma each
carries over a call that was visited before and over a new one.  What it finds depends on the
neighbours of the calls that it visits and on nothing else (`Composition.search_congr`).
-/

namespace CallFlow

namespace Composition

variable {edges edges' : List (CallId × CallId)} {fuel fuel' : Nat}
  {stack visited calls : List CallId}
  {start call : CallId}

/-! ## What a search keeps -/

/-- Every call of the list but the first one is where an edge of an earlier one leads. -/
def Discovered (edges : List (CallId × CallId)) (calls : List CallId) : Prop :=
  ∀ before call after, calls = before ++ call :: after → before ≠ [] →
    ∃ source ∈ before, (source, call) ∈ edges

theorem Discovered.snoc (h : Discovered edges calls)
    (hcall : calls ≠ [] → ∃ source ∈ calls, (source, call) ∈ edges) :
    Discovered edges (calls ++ [call]) := by
  intro before call' after hsplit hbefore
  rcases List.eq_nil_or_concat after with rfl | ⟨after', last, rfl⟩
  · obtain ⟨rfl, hlast⟩ := List.append_inj' hsplit rfl
    obtain rfl := List.head_eq_of_cons_eq hlast
    exact hcall hbefore
  · rw [List.concat_eq_append, ← List.cons_append, ← List.append_assoc] at hsplit
    obtain ⟨hsplit, -⟩ := List.append_inj' hsplit rfl
    exact h before call' after' hsplit hbefore

/-- What holds while calls are searched from a start: the visited ones, the last one first, are
different and discovered one from the other, the start as the first of them, and those on the stack
wait behind them. -/
structure Searching (edges : List (CallId × CallId)) (start : CallId)
    (stack visited : List CallId) : Prop where
  nodup : visited.Nodup
  first : visited = [] ∧ stack = [start] ∨ visited.reverse.head? = some start
  reached : ∀ call, call ∈ visited ∨ call ∈ stack →
    Relation.ReflTransGen (fun source target => (source, target) ∈ edges) start call
  discovered : Discovered edges visited.reverse
  pending : visited ≠ [] → ∀ call ∈ stack, ∃ source ∈ visited, (source, call) ∈ edges

namespace Searching

theorem begin (edges : List (CallId × CallId)) (start : CallId) :
    Searching edges start [start] [] where
  nodup := List.nodup_nil
  first := .inl ⟨rfl, rfl⟩
  reached call hcall := by
    obtain rfl : call = start := by simpa using hcall
    exact .refl
  discovered before call after hsplit := absurd hsplit (by simp)
  pending h := absurd rfl h

/-- A call that was visited before is dropped. -/
theorem skip (h : Searching edges start (call :: stack) visited) (hold : call ∈ visited) :
    Searching edges start stack visited where
  nodup := h.nodup
  first := by
    refine .inr (h.first.resolve_left fun hfirst => ?_)
    rw [hfirst.1] at hold
    exact absurd hold (by simp)
  reached other hother := h.reached other (hother.imp_right (List.mem_cons_of_mem _))
  discovered := h.discovered
  pending hvisited other hother := h.pending hvisited other (List.mem_cons_of_mem _ hother)

/-- A new call is visited, and what it leads to is put on the stack. -/
theorem visit (h : Searching edges start (call :: stack) visited) (hnew : call ∉ visited) :
    Searching edges start (stackBehind edges visited call stack) (call :: visited) where
  nodup := List.nodup_cons.2 ⟨hnew, h.nodup⟩
  first := by
    refine .inr ?_
    rcases h.first with ⟨rfl, hstack⟩ | hfirst
    · obtain ⟨rfl, -⟩ := List.cons.inj hstack
      rfl
    · rw [List.reverse_cons, List.head?_append, hfirst]
      rfl
  reached other hother := by
    have hcall := h.reached call (.inr List.mem_cons_self)
    rcases hother with hother | hother
    · rcases List.mem_cons.1 hother with rfl | hother
      · exact hcall
      · exact h.reached other (.inl hother)
    · rcases mem_stackBehind.1 hother with ⟨hedge, -⟩ | hother
      · exact hcall.tail hedge
      · exact h.reached other (.inr (List.mem_cons_of_mem _ hother))
  discovered := by
    rw [List.reverse_cons]
    refine h.discovered.snoc fun hvisited => ?_
    obtain ⟨source, hsource, hedge⟩ :=
      h.pending (mt List.reverse_eq_nil_iff.2 hvisited) call List.mem_cons_self
    exact ⟨source, List.mem_reverse.2 hsource, hedge⟩
  pending _ other hother := by
    rcases mem_stackBehind.1 hother with ⟨hedge, -⟩ | hother
    · exact ⟨call, List.mem_cons_self, hedge⟩
    · -- what waited before has been discovered, unless the search has just begun
      rcases h.first with ⟨-, hstack⟩ | hfirst
      · obtain ⟨-, rfl⟩ := List.cons.inj hstack
        exact absurd hother (by simp)
      · have hvisited : visited ≠ [] := by
          rintro rfl
          exact absurd hfirst (by simp)
        obtain ⟨source, hsource, hedge⟩ := h.pending hvisited other (List.mem_cons_of_mem _ hother)
        exact ⟨source, List.mem_cons_of_mem _ hsource, hedge⟩

/-- **A search with enough fuel ends with an empty stack**, and what it keeps holds of the calls
that it reports. -/
theorem exists_search (h : Searching edges start stack visited)
    (hfuel : capacity edges stack visited ≤ fuel) :
    ∃ visited', search edges fuel stack visited = visited'.reverse ∧
      Searching edges start [] visited' := by
  revert h
  refine search_induction (motive := fun fuel stack visited => Searching edges start stack visited →
    ∃ visited', search edges fuel stack visited = visited'.reverse ∧
      Searching edges start [] visited')
    ?empty ?skip ?visit hfuel
  case empty => exact fun fuel visited h => ⟨visited, search_nil, h⟩
  case skip =>
    intro fuel call stack visited hold ih h
    rw [search_skip hold]
    exact ih (h.skip hold)
  case visit =>
    intro fuel call stack visited hnew ih h
    rw [search_visit hnew]
    exact ih (h.visit hnew)

end Searching

/-! ## What a search depends on -/

/-- What was visited is reported. -/
theorem mem_search_of_visited (h : call ∈ visited) : call ∈ search edges fuel stack visited := by
  fun_induction search edges fuel stack visited with
  | case1 | case2 => exact List.mem_reverse.2 h
  | case3 fuel visited other stack hold ih => exact ih h
  | case4 fuel visited other stack hnew visited' fresh ih => exact ih (List.mem_cons_of_mem _ h)

/-- **Searches with enough fuel report the same if the calls that they report have the same
neighbours.** -/
theorem search_congr (hfuel : capacity edges stack visited ≤ fuel)
    (hfuel' : capacity edges' stack visited ≤ fuel')
    (hsame : ∀ call ∈ search edges fuel stack visited,
      neighbours edges' call = neighbours edges call) :
    search edges' fuel' stack visited = search edges fuel stack visited := by
  refine search_induction (motive := fun fuel stack visited =>
    ∀ fuel', capacity edges' stack visited ≤ fuel' →
    (∀ call ∈ search edges fuel stack visited, neighbours edges' call = neighbours edges call) →
    search edges' fuel' stack visited = search edges fuel stack visited) ?empty ?skip ?visit hfuel
    fuel' hfuel' hsame
  case empty =>
    intro fuel visited fuel' _ _
    rw [search_nil, search_nil]
  case skip =>
    intro fuel call stack visited hold ih fuel' hfuel' hsame
    rw [capacity_cons] at hfuel'
    obtain ⟨rest, rfl⟩ : ∃ rest, fuel' = rest + 1 := Nat.exists_eq_succ_of_ne_zero (by omega)
    rw [search_skip hold] at hsame
    rw [search_skip hold, search_skip hold]
    exact ih rest (Nat.le_of_succ_le_succ hfuel') hsame
  case visit =>
    intro fuel call stack visited hnew ih fuel' hfuel' hsame
    have hless := Nat.lt_of_lt_of_le (capacity_visit_lt hnew) hfuel'
    obtain ⟨rest, rfl⟩ : ∃ rest, fuel' = rest + 1 := Nat.exists_eq_succ_of_ne_zero (by omega)
    rw [search_visit hnew] at hsame
    -- the call itself is reported, and so the two searches put the same on their stacks
    have hneighbours : neighbours edges' call = neighbours edges call :=
      hsame call (mem_search_of_visited List.mem_cons_self)
    have hbehind :
        stackBehind edges' visited call stack = stackBehind edges visited call stack := by
      rw [stackBehind, hneighbours, stackBehind]
    rw [hbehind] at hless
    rw [search_visit hnew, search_visit hnew, hbehind]
    exact ih rest (Nat.le_of_lt_succ hless) hsame

/-! ## The used calls of a composition -/

/-- The composition with the calls of a list only, and without the mappings that have an end at
another call. -/
def keeping (c : Composition) (used : List CallId) : Composition :=
  { c with
    calls := c.calls.filter fun d => used.contains d.id
    mappings :=
      c.mappings.filter fun m => Frame.isLive used m.source && Frame.isLive used m.target }

theorem edges_keeping (c : Composition) (used : List CallId) :
    (c.keeping used).edges = c.edges.filter fun e => used.contains e.1 := by
  simp only [edges, keeping]
  induction c.calls with
  | nil => rfl
  | cons d rest ih =>
      have htargets :
          (d.successor.targets.map fun target => (d.id, target)).filter (fun e => used.contains e.1)
          = if used.contains d.id then d.successor.targets.map fun target => (d.id, target) else
            [] := by
        split
        · rename_i hused
          exact List.filter_eq_self.2 fun e he => by
            obtain ⟨target, -, rfl⟩ := List.mem_map.1 he
            exact hused
        · rename_i hused
          exact List.filter_eq_nil_iff.2 fun e he => by
            obtain ⟨target, -, rfl⟩ := List.mem_map.1 he
            exact hused
      rw [List.flatMap_cons, List.filter_append, htargets, ← ih, List.filter_cons]
      split
      · rw [List.flatMap_cons]
      · rfl

/-- A call that is kept has its neighbours. -/
theorem neighbours_filter {used : List CallId} (h : call ∈ used) :
    neighbours (edges.filter fun e => used.contains e.1) call = neighbours edges call := by
  rw [neighbours, neighbours, List.filter_filter]
  have hsame : ∀ e ∈ edges, ((e.1 == call) && used.contains e.1) = (e.1 == call) := by
    intro e _
    by_cases hsource : e.1 = call
    · simp [hsource, h]
    · simp [hsource]
  rw [List.filter_congr hsame]

/-- Without the calls that a start does not reach, it reaches the same ones in the same order. -/
theorem reachFrom_keeping (c : Composition) (start : CallId) :
    (c.keeping (c.reachFrom start)).reachFrom start = c.reachFrom start := by
  refine search_congr (capacity_start_le _ _) (capacity_start_le _ _) fun call hcall => ?_
  rw [edges_keeping]
  exact neighbours_filter hcall

/-- The list is that of the calls that a composition with the start uses. -/
structure Uses (c : Composition) (start : CallId) (used : List CallId) : Prop where
  first : used.head? = some start
  nodup : used.Nodup
  /-- The used calls are those that control can reach. -/
  mem_iff : ∀ call, call ∈ used ↔ Relation.ReflTransGen c.Leads start call
  /-- Every used call but the start stands behind one that leads to it. -/
  discovered : ∀ before call after, used = before ++ call :: after → before ≠ [] →
    ∃ decl ∈ c.calls, decl.id ∈ before ∧ call ∈ decl.successor.targets
  /-- Used calls lead to used calls. -/
  closed : ∀ decl ∈ c.calls, decl.id ∈ used → ∀ target ∈ decl.successor.targets, target ∈ used

theorem uses_reachFrom (c : Composition) (start : CallId) : c.Uses start (c.reachFrom start) := by
  obtain ⟨hstart, hfollows⟩ := c.closed_reachFrom start
  obtain ⟨visited, hvisited, hsearching⟩ :=
    (Searching.begin c.edges start).exists_search (capacity_start_le _ _)
  have hreach : c.reachFrom start = visited.reverse := hvisited
  rw [hreach] at hstart hfollows ⊢
  constructor
  case first =>
    refine hsearching.first.resolve_left fun hfirst => ?_
    exact absurd hfirst.2 (by simp)
  case nodup => exact List.nodup_reverse.2 hsearching.nodup
  case mem_iff =>
    intro call
    constructor
    · exact fun hcall => hsearching.reached call (.inl (List.mem_reverse.1 hcall))
    · exact fun hreaches => hfollows.mem_of_reaches hstart hreaches
  case discovered =>
    intro before call after hsplit hbefore
    obtain ⟨source, hsource, hedge⟩ := hsearching.discovered before call after hsplit hbefore
    obtain ⟨decl, hdecl, rfl, htarget⟩ := leads_iff.1 hedge
    exact ⟨decl, hdecl, hsource, htarget⟩
  case closed =>
    intro decl hdecl hused target htarget
    exact hfollows (decl.id, target) (leads_iff.2 ⟨decl, hdecl, rfl, htarget⟩) hused

end Composition

namespace Graph

variable {g : Graph} {id : CompositionId} {c : Composition} {start : CallId}

/-- The graph in which one of the compositions has the calls of a list only. -/
def keeping (g : Graph) (id : CompositionId) (used : List CallId) : Graph :=
  { g with compositions := Assoc.modify g.compositions id (·.keeping used) }

theorem usedCalls_of_start (hc : g.composition id = .ok c) (hstart : c.starts = [start]) :
    g.usedCalls id = .ok (c.reachFrom start) := by
  have hstartOf : g.startOf id = .ok (some start) := by simp only [startOf, hc, hstart]
  simp only [usedCalls, hc, hstartOf]
  rfl

/-- **A composition with one start uses what control can reach from it**, and what it does not use
can be taken away from it. -/
theorem uses_of_start (hc : g.composition id = .ok c) (hstart : c.starts = [start]) :
    ∃ used, g.usedCalls id = .ok used ∧ c.Uses start used ∧
      (g.keeping id used).usedCalls id = .ok used := by
  refine ⟨_, usedCalls_of_start hc hstart, c.uses_reachFrom start, ?_⟩
  have hkept : (g.keeping id (c.reachFrom start)).composition id =
      .ok (c.keeping (c.reachFrom start)) := by
    rw [composition_eq_ok, keeping, Assoc.find?_modify, if_pos rfl, composition_eq_ok.1 hc]
    rfl
  rw [usedCalls_of_start hkept hstart, Composition.reachFrom_keeping]

end Graph

namespace Sample

/-- A loop around a call that repeats itself, and two ways to one end.  One call is reached by
none. -/
def maze : Graph :=
  .ofParts "maze" [.plain ⟨0⟩ "f" []] [{ Composition.empty ⟨0⟩ "main" none with
    starts := [⟨1⟩]
    calls := [⟨⟨0⟩, ⟨0⟩, .next ⟨1⟩, none⟩, ⟨⟨1⟩, ⟨0⟩, .loop ⟨2⟩ (some ⟨3⟩), none⟩,
      ⟨⟨2⟩, ⟨0⟩, .branch (some ⟨2⟩) (some ⟨1⟩), none⟩,
      ⟨⟨3⟩, ⟨0⟩, .branch (some ⟨4⟩) (some ⟨5⟩), none⟩,
      ⟨⟨4⟩, ⟨0⟩, .next ⟨5⟩, none⟩, ⟨⟨5⟩, ⟨0⟩, .stop, none⟩]
    mappings := [⟨.call ⟨0⟩ .output, none, .call ⟨1⟩ .receiver, none, none⟩] }]

end Sample

/-- Five of the six calls are used, and the others after it are reached through them. -/
theorem Graph.uses_of_start_sample :
    (∃ c, Sample.maze.composition ⟨0⟩ = .ok c ∧ c.starts = [⟨1⟩] ∧
      c.Uses ⟨1⟩ [⟨1⟩, ⟨3⟩, ⟨5⟩, ⟨4⟩, ⟨2⟩]) ∧
    Sample.maze.usedCalls ⟨0⟩ = .ok [⟨1⟩, ⟨3⟩, ⟨5⟩, ⟨4⟩, ⟨2⟩] ∧
    (Sample.maze.keeping ⟨0⟩ [⟨1⟩, ⟨3⟩, ⟨5⟩, ⟨4⟩, ⟨2⟩]).usedCalls ⟨0⟩ =
      .ok [⟨1⟩, ⟨3⟩, ⟨5⟩, ⟨4⟩, ⟨2⟩] := by
  obtain ⟨c, hc, hstart⟩ : ∃ c, Sample.maze.composition ⟨0⟩ = .ok c ∧ c.starts = [⟨1⟩] :=
    ⟨_, rfl, rfl⟩
  obtain ⟨used, hused, huses, hkept⟩ := uses_of_start hc hstart
  obtain rfl : [⟨1⟩, ⟨3⟩, ⟨5⟩, ⟨4⟩, ⟨2⟩] = used := by
    have hfound : Sample.maze.usedCalls ⟨0⟩ = .ok [⟨1⟩, ⟨3⟩, ⟨5⟩, ⟨4⟩, ⟨2⟩] := rfl
    exact Except.ok.inj (hfound.symm.trans hused)
  exact ⟨⟨c, hc, hstart, huses⟩, hused, hkept⟩

end CallFlow
