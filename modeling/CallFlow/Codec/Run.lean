import CallFlow.Codec.Composition
import CallFlow.Codec.Value
import CallFlow.Snapshot
import CallFlow.Trace

/-!
# Traces and snapshots in JSON

What a run leaves for inspection is written only, never read.
-/

namespace CallFlow

open CallFlow.Json (tagged Piece)

/-- The site of a JSON form. -/
def Site.ofPiece? (w : Piece) : Option Site := do
  match ← w.choice? with
  | ("Call", some w) => (CallId.ofPiece? w).map .call
  | ("Entry", some w) => (FunctionId.ofPiece? w).map .entry
  | _ => none

/-- The JSON form of how a visit ended. -/
def Outcome.toJson : Outcome → Json
  | .completed => .str "Completed"
  | .exhausted => .str "Exhausted"
  | .failed => .str "Failed"

/-- The JSON form of a visit. -/
def TraceEntry.toJson (e : TraceEntry) : Json :=
  .obj [("depth", .ofNat e.depth), ("composition", e.composition.toJson), ("call", e.call.toJson),
    ("function", e.function.toJson), ("outcome", e.outcome.toJson)]

/-- The JSON form of a terminal. -/
def TerminalView.toJson (t : TerminalView) : Json :=
  .obj [("name", .str t.name), ("port", .ofOption Port.toJson t.port),
    ("value_type", t.valueType.toJson), ("value", .ofOption Value.toShaped t.value),
    ("consumed", .bool t.consumed)]

/-- The JSON form of a mapping in a snapshot. -/
def EdgeView.toJson (e : EdgeView) : Json :=
  .obj [("source", .str e.source),
    ("source_strategy", .ofOption Strategy.toJson e.sourceStrategy),
    ("target", .str e.target),
    ("target_strategy", .ofOption Strategy.toJson e.targetStrategy),
    ("priority", .ofOption CallId.toJson e.priority), ("authoritative", .bool e.authoritative)]

/-- The JSON form of a call with the JSON form of its body. -/
def CallView.toJson (body : Json) (c : CallView) : Json :=
  .obj [("call", c.call.toJson), ("function", c.function.toJson),
    ("label", .ofOption .str c.label), ("successor", c.successor.toJson),
    ("terminals", .ofList TerminalView.toJson c.terminals), ("body", body)]

/-- The JSON form of a composition with the JSON forms of the bodies of its calls. -/
def FrameView.toJson (bodies : List (CallId × Json)) (v : FrameView) : Json :=
  let call (c : CallView) : Json := c.toJson ((Assoc.find? bodies c.call).getD .null)
  .obj [("composition", v.composition.toJson), ("name", .str v.name),
    ("represents", .ofOption FunctionId.toJson v.represents),
    ("calls", .ofList call v.calls),
    ("variables", .ofList TerminalView.toJson v.vars),
    ("edges", .ofList EdgeView.toJson v.edges)]

namespace Snapshot

mutual

/-- The JSON form of a snapshot. -/
def toJson : Snapshot → Json
  | .mk view bodies => view.toJson (bodiesToJson bodies)

/-- The JSON forms of the bodies of the calls. -/
def bodiesToJson : List (CallId × Snapshot) → List (CallId × Json)
  | [] => []
  | (id, body) :: rest => (id, body.toJson) :: bodiesToJson rest

end

end Snapshot

end CallFlow
