import CallFlow.Codec.Composition
import CallFlow.Decimal.Layout
import CallFlow.Decimal.Numeral
import CallFlow.Graph.Basic
import CallFlow.Json.Parser

/-!
# Graphs in JSON

A graph is a record.  Its definitions are objects under their keys, which are written in decimal.
Reading checks the form only; `Graph.check` is not part of it.
-/

namespace CallFlow

namespace Json

/-- A number of 32 bits as a key: decimal digits without leading zeros and escapes. -/
def Key.number? (key : Key) : Option Nat :=
  match Decimal.spanDigits key.text.toList with
  | ([], _) => none
  | (ds, rest) =>
      let n := Decimal.ofDigits ds
      let isShort := ds.length = 1 || ds.head? != some 0
      if key.plain && rest.isEmpty && isShort && n < UInt32.size then some n else none

/-- The members of an object with numbers as keys. -/
def Piece.numbered? {α : Type} (read : Piece → Option α) : Piece → Option (List (Nat × α))
  | .obj members => members.mapM fun (key, w) => do return (← key.number?, ← read w)
  | _ => none

/-- An object with numbers as keys. -/
def ofNumbered {α : Type} (f : α → Json) (entries : List (Nat × α)) : Json :=
  .obj (entries.map fun (n, a) => (toString n, f a))

end Json

namespace Graph

open CallFlow.Json (Piece)

/-- The JSON form of a graph. -/
def toJson (g : Graph) : Json :=
  .obj [("name", .str g.name),
    ("functions", .ofNumbered Description.toJson (g.functions.map fun (id, d) => (id.val, d))),
    ("compositions", .ofNumbered Composition.toJson
      (g.compositions.map fun (id, c) => (id.val, c))),
    ("next_function_id", .ofNat g.nextFunction),
    ("next_composition_id", .ofNat g.nextComposition),
    ("next_call_id", .ofNat g.nextCall)]

/-- The graph of a JSON form.  Of several definitions under one key the last one counts. -/
def ofPiece? (w : Piece) : Option Graph := do
  let fs ← w.record?
    ["name", "functions", "compositions", "next_function_id", "next_composition_id",
      "next_call_id"]
  let name ← Piece.field? fs "name" Piece.text?
  let functions ← Piece.field? fs "functions" (Piece.numbered? Description.ofPiece?)
  let compositions ← Piece.field? fs "compositions" (Piece.numbered? Composition.ofPiece?)
  let nextFunction ← Piece.field? fs "next_function_id" (Piece.natBelow? UInt32.size)
  let nextComposition ← Piece.field? fs "next_composition_id" (Piece.natBelow? UInt32.size)
  let nextCall ← Piece.field? fs "next_call_id" (Piece.natBelow? UInt32.size)
  return {
    name
    functions :=
      Assoc.sortedOfList FunctionId.before (functions.map fun (n, d) => (⟨n⟩, d))
    compositions :=
      Assoc.sortedOfList CompositionId.before (compositions.map fun (n, c) => (⟨n⟩, c))
    nextFunction, nextComposition, nextCall }

/-- The graph in a text. -/
def ofText? (text : String) : Option Graph := (Piece.parse? text).bind ofPiece?

end Graph

end CallFlow
