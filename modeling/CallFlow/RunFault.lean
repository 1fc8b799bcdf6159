import CallFlow.Graph.Fault
import CallFlow.Site
import CallFlow.Value.Basic

/-!
# What can go wrong in a run

The causes of failures while a composition is set up and executed, and their wording.  Exhaustion is
one of them: it is the signal that loop nodes wait for, and a failure everywhere else.
-/

namespace CallFlow

/-- Why the mappings or starts of a composition do not determine what to do. -/
inductive Ambiguity where
  | severalStarts (starts : List CallId)
  /-- The target of a mapping is not a place that mappings can write. -/
  | notATarget (target : Endpoint)
  /-- Several mappings of one group write the whole value. -/
  | competing (slot : Slot) (priority : Option CallId) (count : Nat)
  /-- A mapping writes the whole value and another one of its group an element. -/
  | mixed (slot : Slot) (priority : Option CallId)
  /-- Two mappings of one group write the same element. -/
  | writtenTwice (slot : Slot) (priority : Option CallId) (strategy : Strategy)
  /-- A mapping writes the whole value of a slot that others append to. -/
  | mixedWithAppends (slot : Slot)
  /-- None of the calls that the sources wait for has completed. -/
  | undecided (slot : Slot) (calls : List CallId)
  /-- The slot does not exist. -/
  | missing (slot : Slot)
  deriving BEq

/-- A slot and the priority of a group of its mappings, in words. -/
def groupText (slot : Slot) : Option CallId → String
  | some call => slot.text ++ " (priority " ++ call.text ++ ")"
  | none => slot.text

/-- The ambiguity in words. -/
def Ambiguity.text : Ambiguity → String
  | .severalStarts starts => severalStartsText starts
  | .notATarget e => e.text ++ " cannot be a mapping target"
  | .competing slot priority count =>
      groupText slot priority ++ " has " ++ toString count ++ " competing direct sources"
  | .mixed slot priority =>
      groupText slot priority ++ " mixes a direct write with indexed writes"
  | .writtenTwice slot priority strategy =>
      groupText slot priority ++ " is written twice at " ++ strategy.text
  | .mixedWithAppends slot => slot.text ++ " mixes a direct write with accumulated writes"
  | .undecided slot calls =>
      "no authoritative source for " ++ slot.text ++ ": none of the priority calls "
        ++ Text.bracketed (calls.map CallId.listed) ++ " has executed"
  | .missing slot => slot.text ++ " does not exist"

/-- What was written where something else is declared. -/
inductive Written where
  /-- A whole value. -/
  | whole (value : Value)
  /-- An element of a container, where the terminal holds no such container. -/
  | element (container : ValueType) (value : Value)

/-- What was written, in words. -/
def Written.text : Written → String
  | .whole v => v.summary
  | .element container v => container.name ++ " element " ++ v.summary

/-- What a caller gave inputs to. -/
inductive InputTarget where
  | function (name : String)
  | composition (name : String)
  deriving DecidableEq, Repr

/-- The target in words. -/
def InputTarget.text : InputTarget → String
  | .function name => "function '" ++ name ++ "'"
  | .composition name => "composition '" ++ name ++ "'"

/-- A failure of a run. -/
inductive RunFault where
  /-- A required input has neither a value nor a default. -/
  | unresolvedInput (site : Site) (function param : String)
  | typeMismatch (place : Place) (expected : ValueType) (actual : Written)
  | exhausted (site : Site)
  /-- An implementation failed; `arguments` shows what it was called with. -/
  | implementationFailure (site : Site) (function message arguments : String)
  | ambiguous (composition : CompositionId) (reason : Ambiguity)
  /-- A function has no implementation, or none under its path. -/
  | unbound (site : Site) (function : String) (path : Option String)
  | itemAccess (source : Endpoint) (reason : Value.ItemFault)
  | unknownInput (name : String) (target : InputTarget)
  | graph (fault : GraphFault)

namespace RunFault

/-- A failure of a query, as a failure of the run.  Several starts are an ambiguity. -/
def ofGraph : GraphFault → RunFault
  | .severalStarts composition starts => .ambiguous composition (.severalStarts starts)
  | fault => .graph fault

/-- The failure in words. -/
def text : RunFault → String
  | .unresolvedInput site function param =>
      "unresolved input at " ++ site.text ++ " (" ++ function ++ "): parameter '" ++ param
        ++ "' has no mapped value and no default"
  | .typeMismatch place expected actual =>
      "type mismatch at " ++ place.text ++ ": expected " ++ expected.name ++ ", got " ++ actual.text
  | .exhausted site => "iteration exhausted at " ++ site.text
  | .implementationFailure site function message arguments =>
      "implementation of '" ++ function ++ "' failed at " ++ site.text ++ ": " ++ message
        ++ " (arguments: " ++ arguments ++ ")"
  | .ambiguous composition reason =>
      "ambiguous composition " ++ composition.text ++ ": " ++ reason.text
  | .unbound site function path =>
      "no implementation bound for '" ++ function ++ "' at " ++ site.text
        ++ (match path with
          | some p => " (path '" ++ p ++ "')"
          | none => "")
  | .itemAccess source reason => "cannot read " ++ source.text ++ ": " ++ reason.text
  | .unknownInput name target => "unknown input '" ++ name ++ "' for " ++ target.text
  | .graph fault => fault.text

end RunFault

end CallFlow
