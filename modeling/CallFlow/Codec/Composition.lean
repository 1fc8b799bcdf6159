import CallFlow.Codec.Description
import CallFlow.Composition.Basic

/-!
# Compositions in JSON

Ports, endpoints, strategies and successors are choices; mappings, calls and compositions are
records.
-/

namespace CallFlow

open CallFlow.Json (tagged Piece)

namespace Port

/-- The JSON form of a port. -/
def toJson : Port → Json
  | .param i => tagged "Param" (.ofNat i.toNat)
  | .receiver => .str "Receiver"
  | .output => .str "Output"
  | .selfOutput => .str "SelfOutput"

/-- The port of a JSON form. -/
def ofPiece? (w : Piece) : Option Port := do
  match ← w.choice? with
  | ("Param", some w) => (Piece.index? w).map .param
  | ("Receiver", content) => if Piece.isBare content then some .receiver else none
  | ("Output", content) => if Piece.isBare content then some .output else none
  | ("SelfOutput", content) => if Piece.isBare content then some .selfOutput else none
  | _ => none

end Port

namespace Endpoint

/-- The JSON form of an endpoint. -/
def toJson : Endpoint → Json
  | .constant c => tagged "Constant" c.toJson
  | .call id port => tagged "Call" (.obj [("call", id.toJson), ("port", port.toJson)])
  | .boundary port => tagged "Boundary" port.toJson
  | .variable name => tagged "Variable" (.str name)

/-- A port of a call in JSON form. -/
def ofCallPiece? (w : Piece) : Option Endpoint := do
  let fs ← w.record? ["call", "port"]
  let id ← Piece.field? fs "call" CallId.ofPiece?
  let port ← Piece.field? fs "port" Port.ofPiece?
  return .call id port

/-- The endpoint of a JSON form. -/
def ofPiece? (w : Piece) : Option Endpoint := do
  match ← w.choice? with
  | ("Constant", some w) => (Constant.ofPiece? w).map .constant
  | ("Call", some w) => ofCallPiece? w
  | ("Boundary", some w) => (Port.ofPiece? w).map .boundary
  | ("Variable", some w) => (Piece.text? w).map .variable
  | _ => none

end Endpoint

namespace Strategy

/-- The JSON form of a strategy. -/
def toJson : Strategy → Json
  | .index i => tagged "Index" (.ofNat i)
  | .append => .str "Append"
  | .key k => tagged "Key" (.str k)

/-- The strategy of a JSON form. -/
def ofPiece? (w : Piece) : Option Strategy := do
  match ← w.choice? with
  | ("Index", some w) => (Piece.position? w).map .index
  | ("Append", content) => if Piece.isBare content then some .append else none
  | ("Key", some w) => (Piece.text? w).map .key
  | _ => none

end Strategy

namespace Mapping

/-- The JSON form of a mapping. -/
def toJson (m : Mapping) : Json :=
  .obj [("source", m.source.toJson),
    ("source_strategy", .ofOption Strategy.toJson m.sourceStrategy),
    ("target", m.target.toJson), ("target_strategy", .ofOption Strategy.toJson m.targetStrategy),
    ("priority", .ofOption CallId.toJson m.priority)]

/-- The mapping of a JSON form. -/
def ofPiece? (w : Piece) : Option Mapping := do
  let fs ← w.record?
    ["source", "source_strategy", "target", "target_strategy", "priority"]
  let source ← Piece.field? fs "source" Endpoint.ofPiece?
  let sourceStrategy ← Piece.optionalField? fs "source_strategy" Strategy.ofPiece?
  let target ← Piece.field? fs "target" Endpoint.ofPiece?
  let targetStrategy ← Piece.optionalField? fs "target_strategy" Strategy.ofPiece?
  let priority ← Piece.optionalField? fs "priority" CallId.ofPiece?
  return { source, sourceStrategy, target, targetStrategy, priority }

end Mapping

namespace Successor

/-- The JSON form of a successor. -/
def toJson : Successor → Json
  | .stop => .str "End"
  | .next id => tagged "Next" id.toJson
  | .loop iterate after =>
      tagged "Loop" (.obj [("iterate", iterate.toJson), ("next", .ofOption CallId.toJson after)])
  | .branch ifTrue ifFalse =>
      tagged "Branch"
        (.obj [("if_true", .ofOption CallId.toJson ifTrue),
          ("if_false", .ofOption CallId.toJson ifFalse)])

/-- A loop node in JSON form. -/
def ofLoopPiece? (w : Piece) : Option Successor := do
  let fs ← w.record? ["iterate", "next"]
  let iterate ← Piece.field? fs "iterate" CallId.ofPiece?
  let after ← Piece.optionalField? fs "next" CallId.ofPiece?
  return .loop iterate after

/-- A branch in JSON form. -/
def ofBranchPiece? (w : Piece) : Option Successor := do
  let fs ← w.record? ["if_true", "if_false"]
  let ifTrue ← Piece.optionalField? fs "if_true" CallId.ofPiece?
  let ifFalse ← Piece.optionalField? fs "if_false" CallId.ofPiece?
  return .branch ifTrue ifFalse

/-- The successor of a JSON form. -/
def ofPiece? (w : Piece) : Option Successor := do
  match ← w.choice? with
  | ("End", content) => if Piece.isBare content then some .stop else none
  | ("Next", some w) => (CallId.ofPiece? w).map .next
  | ("Loop", some w) => ofLoopPiece? w
  | ("Branch", some w) => ofBranchPiece? w
  | _ => none

end Successor

namespace CallDecl

/-- The JSON form of a call. -/
def toJson (c : CallDecl) : Json :=
  .obj [("id", c.id.toJson), ("function", c.function.toJson), ("successor", c.successor.toJson),
    ("label", .ofOption .str c.label)]

/-- The call of a JSON form. -/
def ofPiece? (w : Piece) : Option CallDecl := do
  let fs ← w.record? ["id", "function", "successor", "label"]
  let id ← Piece.field? fs "id" CallId.ofPiece?
  let function ← Piece.field? fs "function" FunctionId.ofPiece?
  let successor ← Piece.field? fs "successor" Successor.ofPiece?
  let label ← Piece.optionalField? fs "label" Piece.text?
  return { id, function, successor, label }

end CallDecl

namespace Composition

/-- The JSON form of a composition. -/
def toJson (c : Composition) : Json :=
  .obj [("id", c.id.toJson), ("name", .str c.name),
    ("represents", .ofOption FunctionId.toJson c.represents),
    ("starts", .ofList CallId.toJson c.starts), ("calls", .ofList CallDecl.toJson c.calls),
    ("mappings", .ofList Mapping.toJson c.mappings)]

/-- The composition of a JSON form. -/
def ofPiece? (w : Piece) : Option Composition := do
  let fs ← w.record? ["id", "name", "represents", "starts", "calls", "mappings"]
  let id ← Piece.field? fs "id" CompositionId.ofPiece?
  let name ← Piece.field? fs "name" Piece.text?
  let represents ← Piece.optionalField? fs "represents" FunctionId.ofPiece?
  let starts ← Piece.field? fs "starts" (Piece.list? CallId.ofPiece?)
  let calls ← Piece.field? fs "calls" (Piece.list? CallDecl.ofPiece?)
  let mappings ← Piece.field? fs "mappings" (Piece.list? Mapping.ofPiece?)
  return { id, name, represents, starts, calls, mappings }

end Composition

end CallFlow
