import CallFlow.Host.Basic
import CallFlow.Instance.Frame

/-!
# Instances

An instance is a frame together with what is kept of its calls from one visit to the next: the
handles of their implementations, and the instances of the bodies that they have run so far.  A
handle stays as it was found; a body is reset before it runs again.
-/

namespace CallFlow

/-- A composition in execution: its frame, and the handles and the bodies of its calls. -/
inductive Instance where
  | mk (frame : Frame) (handles : List (CallId × Callable)) (bodies : List (CallId × Instance))

namespace Instance

/-- The composition itself. -/
def frame : Instance → Frame
  | mk frame _ _ => frame

/-- The implementations that were found under the paths of calls. -/
def handles : Instance → Assoc CallId Callable
  | mk _ handles _ => handles

/-- The bodies that calls have run. -/
def bodies : Instance → Assoc CallId Instance
  | mk _ _ bodies => bodies

/-- Sets up a composition of a graph; nothing is kept of its calls yet. -/
def ofGraph (g : Graph) (id : CompositionId) (checked : Bool) : Except RunFault Instance :=
  (Frame.ofGraph g id checked).map fun frame => mk frame [] []

mutual

/-- The instance with unwritten terminals and variables and without authority, at every depth.
Handles stay. -/
def reset : Instance → Instance
  | mk frame handles bodies => mk frame.reset handles (resetBodies bodies)

/-- `reset` for the bodies of the calls. -/
def resetBodies : List (CallId × Instance) → List (CallId × Instance)
  | [] => []
  | (id, body) :: rest => (id, body.reset) :: resetBodies rest

end

end Instance

end CallFlow
