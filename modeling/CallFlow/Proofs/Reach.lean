import CallFlow.Composition.Reach
import Mathlib.Data.List.Basic

/-!
# The calls that a search reports

The search from a start call reports the start, and with every call all those to which its edges
lead (`Composition.closed_reachFrom`).  It has the fuel to empty its stack: what it may still have
to take from the stack drops with every call that it takes (`Composition.capacity`).  Hence what
holds of a search follows from what its two steps do, which drop a call that was visited before or
visit a new one (`Composition.search_induction`).
-/

namespace CallFlow

namespace Composition

variable {edges : List (CallId × CallId)} {fuel : Nat} {stack visited : List CallId} {call : CallId}

/-- What the search may still have to take from its stack: what is there now, and what the edges of
calls that were not visited can add. -/
def capacity (edges : List (CallId × CallId)) (stack visited : List CallId) : Nat :=
  stack.length + (edges.filter fun e => !visited.contains e.1).length

theorem length_eraseDups_le : ∀ calls : List CallId, calls.eraseDups.length ≤ calls.length
  | [] => Nat.le_refl _
  | call :: rest => by
      have hrest := length_eraseDups_le (rest.filter fun other => !other == call)
      have hfilter := List.length_filter_le (fun other => !other == call) rest
      rw [List.eraseDups_cons, List.length_cons, List.length_cons]
      omega
termination_by calls => calls.length
decreasing_by
  have hfilter := List.length_filter_le (fun other => !other == call) rest
  simp only [List.length_cons]
  omega

theorem mem_neighbours {target : CallId} :
    target ∈ neighbours edges call ↔ (call, target) ∈ edges := by
  simp only [neighbours, List.mem_eraseDups, List.mem_map, List.mem_filter, beq_iff_eq]
  constructor
  · rintro ⟨⟨source, target'⟩, ⟨hmem, rfl⟩, rfl⟩
    exact hmem
  · intro hmem
    exact ⟨(call, target), ⟨hmem, rfl⟩, rfl⟩

theorem length_neighbours_le :
    (neighbours edges call).length ≤ (edges.filter fun e => e.1 == call).length := by
  have hdups := length_eraseDups_le ((edges.filter fun e => e.1 == call).map (·.2))
  rwa [List.length_map] at hdups

/-- A call that is visited uses its edges up. -/
theorem length_filter_visited (hnew : call ∉ visited) :
    (edges.filter fun e => !(call :: visited).contains e.1).length
        + (edges.filter fun e => e.1 == call).length
      = (edges.filter fun e => !visited.contains e.1).length := by
  induction edges with
  | nil => rfl
  | cons e rest ih =>
      obtain ⟨source, target⟩ := e
      by_cases hsource : source = call
      · subst hsource
        simp [hnew] at ih ⊢
        omega
      · by_cases hvisited : source ∈ visited <;> simp [hsource, hvisited] at ih ⊢ <;> omega

/-- The stack once its first call was visited: the neighbours of the call that are new come
first. -/
def stackBehind (edges : List (CallId × CallId)) (visited : List CallId) (call : CallId)
    (stack : List CallId) :
    List CallId :=
  ((neighbours edges call).filter fun n => !(call :: visited).contains n).reverse ++ stack

theorem mem_stackBehind {other : CallId} : other ∈ stackBehind edges visited call stack ↔
    ((call, other) ∈ edges ∧ other ∉ call :: visited) ∨ other ∈ stack := by
  simp only [stackBehind, List.mem_append, List.mem_reverse, List.mem_filter, mem_neighbours,
    List.contains_eq_mem,
    Bool.not_eq_true', decide_eq_false_iff_not]

theorem capacity_cons :
    capacity edges (call :: stack) visited = capacity edges stack visited + 1 := by
  simp only [capacity, List.length_cons]
  omega

/-- Visiting the call on top of the stack leaves room for the calls that it adds. -/
theorem capacity_visit_lt (hnew : call ∉ visited) :
    capacity edges (stackBehind edges visited call stack) (call :: visited)
      < capacity edges (call :: stack) visited := by
  have hfresh :=
    List.length_filter_le (fun n => !(call :: visited).contains n) (neighbours edges call)
  have hneighbours : (neighbours edges call).length ≤ (edges.filter fun e => e.1 == call).length :=
    length_neighbours_le
  have hedges : (edges.filter fun e => !(call :: visited).contains e.1).length
        + (edges.filter fun e => e.1 == call).length
      = (edges.filter fun e => !visited.contains e.1).length := length_filter_visited hnew
  simp only [capacity, stackBehind, List.length_append, List.length_reverse, List.length_cons]
  omega

theorem capacity_start_le (edges : List (CallId × CallId)) (start : CallId) :
    capacity edges [start] [] ≤ edges.length + 2 := by
  have hfilter :=
    List.length_filter_le (fun e : CallId × CallId => !([] : List CallId).contains e.1) edges
  simp only [capacity, List.length_singleton]
  omega

theorem search_nil : search edges fuel [] visited = visited.reverse := by cases fuel <;> rfl

theorem search_skip (hold : call ∈ visited) :
    search edges (fuel + 1) (call :: stack) visited = search edges fuel stack visited := by
  rw [search, if_pos (by simpa using hold)]

theorem search_visit (hnew : call ∉ visited) : search edges (fuel + 1) (call :: stack) visited
    = search edges fuel (stackBehind edges visited call stack) (call :: visited) := by
  rw [search, if_neg (by simpa using hnew)]
  rfl

/-- **What holds of a search with the fuel to empty its stack**: it holds when the stack is empty,
and before each of the two steps it holds if it does behind it. -/
theorem search_induction {motive : Nat → List CallId → List CallId → Prop}
    (empty : ∀ fuel visited, motive fuel [] visited)
    (skip : ∀ fuel call stack visited, call ∈ visited → motive fuel stack visited →
      motive (fuel + 1) (call :: stack) visited)
    (visit : ∀ fuel call stack visited, call ∉ visited →
      motive fuel (stackBehind edges visited call stack) (call :: visited) →
      motive (fuel + 1) (call :: stack) visited)
    (hfuel : capacity edges stack visited ≤ fuel) : motive fuel stack visited := by
  induction fuel generalizing stack visited with
  | zero =>
      obtain rfl : stack = [] := by
        have hlength : stack.length = 0 := by simp only [capacity] at hfuel; omega
        exact List.length_eq_zero_iff.1 hlength
      exact empty 0 visited
  | succ fuel ih =>
      cases stack with
      | nil => exact empty _ visited
      | cons call stack =>
          by_cases hcall : call ∈ visited
          · rw [capacity_cons] at hfuel
            exact skip _ _ _ _ hcall (ih (Nat.le_of_succ_le_succ hfuel))
          · have hless := Nat.lt_of_lt_of_le (capacity_visit_lt hcall) hfuel
            exact visit _ _ _ _ hcall (ih (Nat.le_of_lt_succ hless))

/-- The list has, with every call in it, those to which its edges lead. -/
def Follows (edges : List (CallId × CallId)) (calls : List CallId) : Prop :=
  ∀ e ∈ edges, e.1 ∈ calls → e.2 ∈ calls

theorem mem_visited_or_stack_cons {other : CallId} (h : other ∈ visited ∨ other ∈ call :: stack) :
    other ∈ call :: visited ∨ other ∈ stack := by
  rcases h with h | h
  · exact .inl (List.mem_cons_of_mem _ h)
  · rcases List.mem_cons.1 h with rfl | h
    · exact .inl List.mem_cons_self
    · exact .inr h

/-- **The search reports what it has visited and what is on its stack**, and with it all to which
edges lead. -/
theorem mem_search (hfuel : capacity edges stack visited ≤ fuel)
    (hvisited : ∀ e ∈ edges, e.1 ∈ visited → e.2 ∈ visited ∨ e.2 ∈ stack) :
    (∀ call, call ∈ visited ∨ call ∈ stack → call ∈ search edges fuel stack visited) ∧
      Follows edges (search edges fuel stack visited) := by
  revert hvisited
  refine search_induction (motive := fun fuel stack visited =>
    (∀ e ∈ edges, e.1 ∈ visited → e.2 ∈ visited ∨ e.2 ∈ stack) →
      (∀ call, call ∈ visited ∨ call ∈ stack → call ∈ search edges fuel stack visited) ∧
        Follows edges (search edges fuel stack visited)) ?empty ?skip ?visit hfuel
  case empty =>
    intro fuel visited hclosed
    rw [search_nil]
    refine ⟨fun call hcall => by simpa using hcall, fun e he hsource => ?_⟩
    simpa using hclosed e he (List.mem_reverse.1 hsource)
  case skip =>
    intro fuel call stack visited hcall ih hclosed
    have hsame : ∀ {other}, other ∈ visited ∨ other ∈ call :: stack →
        other ∈ visited ∨ other ∈ stack := fun h => by
      rcases mem_visited_or_stack_cons h with h | h
      · exact .inl ((List.mem_cons.1 h).elim (fun heq => heq ▸ hcall) fun h => h)
      · exact .inr h
    rw [search_skip hcall]
    obtain ⟨hreports, hfollows⟩ := ih fun e he hsource => hsame (hclosed e he hsource)
    exact ⟨fun other hother => hreports other (hsame hother), hfollows⟩
  case visit =>
    intro fuel call stack visited hcall ih hclosed
    rw [search_visit hcall]
    obtain ⟨hreports, hfollows⟩ := ih fun e he hsource => by
      -- an edge of the call itself leads to a neighbour, which is visited or put on the stack
      rcases List.mem_cons.1 hsource with rfl | hsource
      · by_cases htarget : e.2 ∈ e.1 :: visited
        · exact .inl htarget
        · exact .inr (mem_stackBehind.2 (.inl ⟨he, htarget⟩))
      · exact (mem_visited_or_stack_cons (hclosed e he hsource)).imp_right
          fun h => mem_stackBehind.2 (.inr h)
    refine ⟨fun other hother => hreports other ?_, hfollows⟩
    exact (mem_visited_or_stack_cons hother).imp_right fun h => mem_stackBehind.2 (.inr h)

/-- **A start reaches itself, and with every call those to which its edges lead.** -/
theorem closed_reachFrom (c : Composition) (start : CallId) :
    start ∈ c.reachFrom start ∧ Follows c.edges (c.reachFrom start) := by
  obtain ⟨hreports, hfollows⟩ := mem_search (capacity_start_le c.edges start) fun e _ hsource =>
    absurd hsource (by simp)
  exact ⟨hreports start (.inr (by simp)), hfollows⟩

end Composition

end CallFlow
