import CallFlow.Composition.Basic
import CallFlow.Description

/-!
# What can go wrong with a graph

The causes of failures in building and querying a graph, and their wording.
-/

namespace CallFlow

/-- Why a mapping cannot be part of a composition. -/
inductive MappingFault where
  | foreignPriority (call : CallId)
  | constantTarget
  | outputTarget (target : Endpoint)
  | inputTarget (target : Endpoint)
  | missingPort (function : String) (port : Port)
  | noBoundary
  deriving BEq

/-- The fault in words. -/
def MappingFault.text : MappingFault → String
  | .foreignPriority call => "priority names call " ++ call.text ++ " outside the composition"
  | .constantTarget => "a constant cannot be a mapping target"
  | .outputTarget e => "call output " ++ e.text ++ " cannot be a mapping target"
  | .inputTarget e => "boundary input " ++ e.text ++ " cannot be a mapping target"
  | .missingPort function port => "function '" ++ function ++ "' has no " ++ port.text
  | .noBoundary => "boundary endpoint in a standalone composition"

/-- A failure in building or querying a graph. -/
inductive GraphFault where
  | functionNotFound (id : FunctionId)
  | compositionNotFound (id : CompositionId)
  | callNotFound (composition : CompositionId) (call : CallId)
  | unknownName (name : String)
  | invalidDescription (function : String) (fault : DescriptionFault)
  | invalidMapping (composition : CompositionId) (fault : MappingFault)
  | severalStarts (composition : CompositionId) (starts : List CallId)
  deriving BEq

/-- The declared starts of an ambiguous composition, in words. -/
def severalStartsText (starts : List CallId) : String :=
  toString starts.length ++ " declared start calls: " ++ Text.bracketed (starts.map CallId.listed)

/-- The failure in words. -/
def GraphFault.text : GraphFault → String
  | .functionNotFound id => "function not found: FunctionId(" ++ id.text ++ ")"
  | .compositionNotFound id => "composition not found: CompositionId(" ++ id.text ++ ")"
  | .callNotFound composition call =>
      "call " ++ call.text ++ " not found in composition " ++ composition.text
  | .unknownName name => "no function named '" ++ name ++ "'"
  | .invalidDescription function fault =>
      "invalid function description '" ++ function ++ "': " ++ fault.text
  | .invalidMapping composition fault =>
      "invalid mapping in composition " ++ composition.text ++ ": " ++ fault.text
  | .severalStarts composition starts =>
      "ambiguous composition " ++ composition.text ++ ": " ++ severalStartsText starts

end CallFlow
