import CallFlow.Codec.Graph
import CallFlow.Json.Parser
import CallFlow.Json.Printer
import CallFlow.Store.Basic

/-!
# A store of rows

The tabular store keeps three tables: graphs, functions and compositions.  A row of the last two
names its graph and the identity of the definition, which together are its key, and holds the
definition as JSON text.  Saving replaces all rows of a graph, or none if two of the new ones have
one key.
-/

namespace CallFlow

/-- A row of the table of graphs. -/
structure GraphRow where
  id : GraphId
  name : String

/-- A row with a definition. -/
structure DefinitionRow where
  graph : GraphId
  key : Nat
  /-- The definition as JSON text. -/
  text : String

/-- The tabular store. -/
structure TableStore where
  graphs : List GraphRow := []
  functions : List DefinitionRow := []
  compositions : List DefinitionRow := []
  /-- The last identity that was given out. -/
  lastId : Int := 0

namespace TableStore

/-- The row of a graph. -/
def row (s : TableStore) (id : GraphId) : Except StoreFault GraphRow :=
  match s.graphs.find? fun r => r.id == id with
  | some r => .ok r
  | none => .error (.graphNotFound id)

/-- The rows of a graph, in order of their keys. -/
def rowsOf (id : GraphId) (rows : List DefinitionRow) : List DefinitionRow :=
  (rows.filter fun r => r.graph == id).mergeSort fun a b => decide (a.key ≤ b.key)

/-- The rows of all other graphs. -/
def rowsBut (id : GraphId) (rows : List DefinitionRow) : List DefinitionRow :=
  rows.filter fun r => r.graph != id

/-- Are the keys of the rows different from each other? -/
def distinctKeys : List DefinitionRow → Bool
  | [] => true
  | r :: rest => rest.all (fun r' => r'.graph != r.graph || r'.key != r.key) && distinctKeys rest

/-- Reads the text of a row. -/
def readRow {α : Type} (read : Json.Piece → Option α) (r : DefinitionRow) : Except StoreFault α :=
  match (Json.Piece.parse? r.text).bind read with
  | some a => .ok a
  | none => .error .unreadable

/-- The row of a function. -/
def functionRow (id : GraphId) (d : Description) : DefinitionRow :=
  ⟨id, d.id.val, d.toJson.compact⟩

/-- The row of a composition. -/
def compositionRow (id : GraphId) (c : Composition) : DefinitionRow :=
  ⟨id, c.id.val, c.toJson.compact⟩

/-- The table of graphs with another name for one. -/
def rename (id : GraphId) (name : String) (rows : List GraphRow) : List GraphRow :=
  rows.map fun r => if r.id = id then { r with name } else r

/-- The functions of a graph, in order of their keys. -/
def readFunctions (s : TableStore) (id : GraphId) : Except StoreFault (List Description) :=
  (rowsOf id s.functions).mapM (readRow Description.ofPiece?)

/-- The compositions of a graph, in order of their keys. -/
def readCompositions (s : TableStore) (id : GraphId) : Except StoreFault (List Composition) :=
  (rowsOf id s.compositions).mapM (readRow Composition.ofPiece?)

instance : GraphStore TableStore where
  empty := {}
  create name s :=
    let id : GraphId := ⟨s.lastId + 1⟩
    (id, { s with graphs := s.graphs ++ [⟨id, name⟩], lastId := s.lastId + 1 })
  save id g s :=
    match s.row id with
    | .error fault => (.error fault, s)
    | .ok _ =>
        let parts := g.parts
        let functions := parts.functions.map (functionRow id)
        let compositions := parts.compositions.map (compositionRow id)
        if distinctKeys functions && distinctKeys compositions then
          (.ok (),
            { s with
              graphs := rename id parts.name s.graphs
              functions := rowsBut id s.functions ++ functions
              compositions := rowsBut id s.compositions ++ compositions })
        else (.error .duplicateKey, s)
  load id s := do
    let r ← s.row id
    let functions ← s.readFunctions id
    let compositions ← s.readCompositions id
    (GraphParts.mk r.name functions compositions).assemble
  delete id s :=
    match s.row id with
    | .error fault => (.error fault, s)
    | .ok _ =>
        (.ok (),
          { s with
            graphs := s.graphs.filter fun r => r.id != id
            functions := rowsBut id s.functions
            compositions := rowsBut id s.compositions })
  list s := s.graphs.map fun r =>
    ⟨r.id, r.name, (rowsOf r.id s.functions).length, (rowsOf r.id s.compositions).length⟩
  function id f s := do
    let _ ← s.row id
    match (rowsOf id s.functions).find? fun r => r.key == f.val with
    | some r => readRow Description.ofPiece? r
    | none => .error (.functionNotFound id f)
  composition id c s := do
    let _ ← s.row id
    match (rowsOf id s.compositions).find? fun r => r.key == c.val with
    | some r => readRow Composition.ofPiece? r
    | none => .error (.compositionNotFound id c)
  functions id s := do
    let _ ← s.row id
    s.readFunctions id

end TableStore

end CallFlow
