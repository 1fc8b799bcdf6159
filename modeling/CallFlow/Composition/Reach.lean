import CallFlow.Composition.Basic

/-!
# Calls that control can reach

Depth-first search along the control edges from the start call.  A call is reported when it is
taken from the stack for the first time, and the calls it leads to are then put on the stack in
the order of their edges, so that the last one is taken first.
-/

namespace CallFlow

namespace Composition

/-- The control edges in order of declaration. -/
def edges (c : Composition) : List (CallId × CallId) :=
  c.calls.flatMap fun d => d.successor.targets.map fun target => (d.id, target)

/-- The calls that a call leads to, each at its first edge. -/
def neighbours (edges : List (CallId × CallId)) (call : CallId) : List CallId :=
  ((edges.filter fun e => e.1 == call).map (·.2)).eraseDups

/-- The search.  `visited` holds the calls already reported, the last one first.  Every step takes
one call from the stack, and a call adds its edges to the stack once at most, so that one more step
than there are edges is enough. -/
def search (edges : List (CallId × CallId)) : (fuel : Nat) → (stack visited : List CallId) →
    List CallId
  | 0, _, visited => visited.reverse
  | _ + 1, [], visited => visited.reverse
  | fuel + 1, call :: stack, visited =>
      if visited.contains call then search edges fuel stack visited
      else
        let visited := call :: visited
        let fresh := (neighbours edges call).filter fun n => !visited.contains n
        search edges fuel (fresh.reverse ++ stack) visited

/-- The calls that control can reach from a start, in the order of the search. -/
def reachFrom (c : Composition) (start : CallId) : List CallId :=
  search c.edges (c.edges.length + 2) [start] []

end Composition

end CallFlow
