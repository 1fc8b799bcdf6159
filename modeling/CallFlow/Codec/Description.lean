import CallFlow.Codec.Constant
import CallFlow.Description

/-!
# Function descriptions in JSON

Descriptions are records with all their fields, `null` standing for what is missing.
-/

namespace CallFlow

open CallFlow.Json (tagged Piece)

/-- Identities of functions are numbers of 32 bits. -/
def FunctionId.ofPiece? (w : Piece) : Option FunctionId :=
  (Piece.natBelow? UInt32.size w).map FunctionId.mk

/-- Identities of compositions are numbers of 32 bits. -/
def CompositionId.ofPiece? (w : Piece) : Option CompositionId :=
  (Piece.natBelow? UInt32.size w).map CompositionId.mk

/-- Identities of calls are numbers of 32 bits. -/
def CallId.ofPiece? (w : Piece) : Option CallId := (Piece.natBelow? UInt32.size w).map CallId.mk

/-- The number of the function. -/
def FunctionId.toJson (id : FunctionId) : Json := .ofNat id.val

/-- The number of the composition. -/
def CompositionId.toJson (id : CompositionId) : Json := .ofNat id.val

/-- The number of the call. -/
def CallId.toJson (id : CallId) : Json := .ofNat id.val

namespace ValueType

/-- The word for a type in JSON. -/
def word : ValueType → String
  | .any => "Any"
  | .none => "None"
  | .bool => "Bool"
  | .int => "Int"
  | .float => "Float"
  | .str => "Str"
  | .list => "List"
  | .map => "Map"
  | .iterator => "Iterator"

/-- All types. -/
def all : List ValueType := [.any, .none, .bool, .int, .float, .str, .list, .map, .iterator]

/-- The JSON form of a type. -/
def toJson (t : ValueType) : Json := .str t.word

/-- The type of a JSON form. -/
def ofPiece? (w : Piece) : Option ValueType := do
  let (tag, content) ← w.choice?
  if Piece.isBare content then all.find? fun t => t.word == tag else Option.none

end ValueType

namespace ParamKind

/-- The JSON form of a kind. -/
def toJson : ParamKind → Json
  | .positional i => tagged "Positional" (.ofNat i.toNat)
  | .keyword name => tagged "Keyword" (.str name)
  | .varPositional => .str "VarPositional"
  | .varKeyword => .str "VarKeyword"

/-- The kind of a JSON form. -/
def ofPiece? (w : Piece) : Option ParamKind := do
  match ← w.choice? with
  | ("Positional", some w) => (Piece.index? w).map .positional
  | ("Keyword", some w) => (Piece.text? w).map .keyword
  | ("VarPositional", content) => if Piece.isBare content then some .varPositional else none
  | ("VarKeyword", content) => if Piece.isBare content then some .varKeyword else none
  | _ => none

end ParamKind

namespace Param

/-- The JSON form of a parameter. -/
def toJson (p : Param) : Json :=
  .obj [("name", .str p.name), ("value_type", p.valueType.toJson), ("kind", p.kind.toJson),
    ("default", .ofOption Constant.toJson p.default)]

/-- The parameter of a JSON form. -/
def ofPiece? (w : Piece) : Option Param := do
  let fs ← w.record? ["name", "value_type", "kind", "default"]
  let name ← Piece.field? fs "name" Piece.text?
  let valueType ← Piece.field? fs "value_type" ValueType.ofPiece?
  let kind ← Piece.field? fs "kind" ParamKind.ofPiece?
  let default ← Piece.optionalField? fs "default" Constant.ofPiece?
  return { name, valueType, kind, default }

end Param

namespace Output

/-- The JSON form of an output. -/
def toJson (o : Output) : Json :=
  .obj [("name", .str o.name), ("value_type", o.valueType.toJson)]

/-- The output of a JSON form. -/
def ofPiece? (w : Piece) : Option Output := do
  let fs ← w.record? ["name", "value_type"]
  let name ← Piece.field? fs "name" Piece.text?
  let valueType ← Piece.field? fs "value_type" ValueType.ofPiece?
  return { name, valueType }

end Output

/-- The JSON form of an implementation, which is a record of its path. -/
def implementationToJson (path : String) : Json := .obj [("path", .str path)]

/-- The path of an implementation in JSON form. -/
def implementationOfPiece? (w : Piece) : Option String := do
  let fs ← w.record? ["path"]
  Piece.field? fs "path" Piece.text?

namespace Description

/-- The JSON form of a description. -/
def toJson (d : Description) : Json :=
  .obj [("id", d.id.toJson), ("name", .str d.name), ("params", .ofList Param.toJson d.params),
    ("receiver", .ofOption Param.toJson d.receiver), ("output", d.output.toJson),
    ("self_output", .ofOption Output.toJson d.selfOutput),
    ("body", .ofOption CompositionId.toJson d.body),
    ("implementation", .ofOption implementationToJson d.implementation)]

/-- The description of a JSON form. -/
def ofPiece? (w : Piece) : Option Description := do
  let fs ← w.record?
    ["id", "name", "params", "receiver", "output", "self_output", "body", "implementation"]
  let id ← Piece.field? fs "id" FunctionId.ofPiece?
  let name ← Piece.field? fs "name" Piece.text?
  let params ← Piece.field? fs "params" (Piece.list? Param.ofPiece?)
  let receiver ← Piece.optionalField? fs "receiver" Param.ofPiece?
  let output ← Piece.field? fs "output" Output.ofPiece?
  let selfOutput ← Piece.optionalField? fs "self_output" Output.ofPiece?
  let body ← Piece.optionalField? fs "body" CompositionId.ofPiece?
  let implementation ← Piece.optionalField? fs "implementation" implementationOfPiece?
  return { id, name, params, receiver, output, selfOutput, body, implementation }

end Description

end CallFlow
