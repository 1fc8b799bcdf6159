import CallFlow.Composition.Basic

/-!
# Logs of a run

What a run writes down: the calls in the order in which their visits begin, if tracing is on the
visits in the order in which they end, and the function of the first call whose visit failed.
-/

namespace CallFlow

/-- How a visit ended. -/
inductive Outcome where
  | completed
  /-- The call was exhausted, and the loop node goes on behind the loop. -/
  | exhausted
  | failed
  deriving DecidableEq, Repr

/-- One visit of a call. -/
structure TraceEntry where
  /-- The number of function bodies around the visit. -/
  depth : Nat
  composition : CompositionId
  call : CallId
  function : FunctionId
  outcome : Outcome
  deriving DecidableEq, Repr

/-- What a run has written down, what was written last standing first. -/
structure Log where
  visits : List CallId := []
  /-- Missing if tracing is off. -/
  trace : Option (List TraceEntry) := none
  failed : Option FunctionId := none

namespace Log

/-- The log of a run that has not begun. -/
def start (tracing : Bool) : Log := { trace := if tracing then some [] else none }

/-- Writes down that a visit begins. -/
def visit (l : Log) (call : CallId) : Log := { l with visits := call :: l.visits }

/-- Writes down that a visit has ended. -/
def record (l : Log) (e : TraceEntry) : Log :=
  { l with
    trace := l.trace.map fun t => e :: t
    failed := if e.outcome = .failed && l.failed.isNone then some e.function else l.failed }

end Log

end CallFlow
