import CallFlow.Store.Tables

/-!
# The tabular store as a file

The text in which the tables are kept on disk.  An empty file is a store without graphs.
-/

namespace CallFlow.TableStore

open CallFlow.Json (Piece)

/-- A whole number of either sign. -/
def wholeOfPiece? : Piece → Option Int
  | .int n => some n
  | _ => none

/-- The JSON form of a row of the table of graphs. -/
def graphRowToJson (r : GraphRow) : Json := .obj [("id", .int r.id.val), ("name", .str r.name)]

/-- The row of the table of graphs of a JSON form. -/
def graphRowOfPiece? (w : Piece) : Option GraphRow := do
  let fs ← w.record? ["id", "name"]
  return ⟨⟨← Piece.field? fs "id" wholeOfPiece?⟩, ← Piece.field? fs "name" Piece.text?⟩

/-- The JSON form of a row with a definition. -/
def definitionRowToJson (r : DefinitionRow) : Json :=
  .obj [("graph", .int r.graph.val), ("key", .ofNat r.key), ("text", .str r.text)]

/-- The row with a definition of a JSON form. -/
def definitionRowOfPiece? (w : Piece) : Option DefinitionRow := do
  let fs ← w.record? ["graph", "key", "text"]
  return ⟨⟨← Piece.field? fs "graph" wholeOfPiece?⟩,
    ← Piece.field? fs "key" (Piece.natBelow? UInt32.size), ← Piece.field? fs "text" Piece.text?⟩

/-- The JSON form of the tables. -/
def toJson (s : TableStore) : Json :=
  .obj [("graphs", .ofList graphRowToJson s.graphs),
    ("functions", .ofList definitionRowToJson s.functions),
    ("compositions", .ofList definitionRowToJson s.compositions), ("last_id", .int s.lastId)]

/-- The tables of a JSON form. -/
def ofPiece? (w : Piece) : Option TableStore := do
  let fs ← w.record? ["graphs", "functions", "compositions", "last_id"]
  return {
    graphs := ← Piece.field? fs "graphs" (Piece.list? graphRowOfPiece?)
    functions := ← Piece.field? fs "functions" (Piece.list? definitionRowOfPiece?)
    compositions := ← Piece.field? fs "compositions" (Piece.list? definitionRowOfPiece?)
    lastId := ← Piece.field? fs "last_id" wholeOfPiece? }

/-- The text of the file. -/
def toText (s : TableStore) : String := s.toJson.compact

/-- The tables in the text of a file. -/
def ofText? (text : String) : Option TableStore :=
  if text.isEmpty then some {} else (Piece.parse? text).bind ofPiece?

end CallFlow.TableStore
