import CallFlow.Graph.Check

/-!
# Stores of graphs

A store keeps graphs under identities that it gives out itself, one greater than all before.  What
it keeps of a graph are its name, its functions and its compositions; the graph is reassembled
from these parts and checked when it is loaded.

`GraphStore` is what every store can do, and importing and finding are derived from it.
-/

namespace CallFlow

/-- The identity of a stored graph. -/
structure GraphId where
  val : Int
  deriving DecidableEq, Repr

/-- The identity as messages show it. -/
def GraphId.text (id : GraphId) : String := "GraphId(" ++ toString id.val ++ ")"

/-- What a list of stored graphs says about one. -/
structure GraphSummary where
  id : GraphId
  name : String
  functions : Nat
  compositions : Nat
  deriving DecidableEq, Repr

/-- Why stored parts are not those of a graph. -/
inductive AssemblyFault where
  /-- A composition represents a function that does not have it as its body. -/
  | notItsBody (composition : CompositionId) (function : FunctionId)
  | graph (fault : GraphFault)
  deriving BEq

/-- The fault in words. -/
def AssemblyFault.text : AssemblyFault → String
  | .notItsBody composition function =>
      "composition " ++ composition.text ++ " represents function " ++ function.text
        ++ ", whose body does not point back"
  | .graph fault => fault.text

/-- A failure of a store. -/
inductive StoreFault where
  | graphNotFound (id : GraphId)
  | nameNotFound (name : String)
  | functionNotFound (graph : GraphId) (function : FunctionId)
  | compositionNotFound (graph : GraphId) (composition : CompositionId)
  | notAssembled (reason : AssemblyFault)
  /-- A stored text is not that of a definition. -/
  | unreadable
  /-- Two rows have one key. -/
  | duplicateKey
  /-- The store may only be read. -/
  | readOnly
  deriving BEq

/-- The failure in words. -/
def StoreFault.text : StoreFault → String
  | .graphNotFound id => "graph not found: " ++ toString id.val
  | .nameNotFound name => "no graph named '" ++ name ++ "'"
  | .functionNotFound graph function =>
      "function not found: graph=" ++ toString graph.val ++ ", function=" ++ function.text
  | .compositionNotFound graph composition =>
      "composition not found: graph=" ++ toString graph.val ++ ", composition=" ++ composition.text
  | .notAssembled reason => "reconstruction error: " ++ reason.text
  | .unreadable => "serialization error: stored definition is not readable"
  | .duplicateKey => "database error: UNIQUE constraint failed"
  | .readOnly => "database error: attempt to write a readonly database"

/-! ## Parts -/

/-- What a store keeps of a graph. -/
structure GraphParts where
  name : String
  functions : List Description
  compositions : List Composition

/-- The parts of a graph, in order of their keys. -/
def Graph.parts (g : Graph) : GraphParts :=
  ⟨g.name, Assoc.values g.functions, Assoc.values g.compositions⟩

namespace GraphParts

/-- The body of the first function with the identity. -/
def bodyOf? (p : GraphParts) (id : FunctionId) : Option CompositionId :=
  (p.functions.find? fun d => d.id == id).bind (·.body)

/-- The first composition whose function does not have it as its body. -/
def fault? (p : GraphParts) : List Composition → Option AssemblyFault
  | [] => none
  | c :: rest =>
      match c.represents with
      | none => p.fault? rest
      | some function =>
          if p.bodyOf? function = some c.id then p.fault? rest
          else some (.notItsBody c.id function)

/-- The graph of the parts, if they fit together and the graph is in order. -/
def assemble (p : GraphParts) : Except StoreFault Graph :=
  match p.fault? p.compositions with
  | some fault => .error (.notAssembled fault)
  | none =>
      let g := Graph.ofParts p.name p.functions p.compositions
      match g.check with
      | .ok () => .ok g
      | .error fault => .error (.notAssembled (.graph fault))

end GraphParts

/-! ## What a store can do -/

/-- The operations of a store.  An operation that changes the store leaves a store also when it
fails. -/
class GraphStore (σ : Type) where
  /-- A store without graphs. -/
  empty : σ
  /-- Gives out an identity for a graph without definitions. -/
  create : String → σ → GraphId × σ
  /-- Replaces what is kept under an identity. -/
  save : GraphId → Graph → σ → Except StoreFault Unit × σ
  load : GraphId → σ → Except StoreFault Graph
  delete : GraphId → σ → Except StoreFault Unit × σ
  /-- All graphs, in order of their identities. -/
  list : σ → List GraphSummary
  function : GraphId → FunctionId → σ → Except StoreFault Description
  composition : GraphId → CompositionId → σ → Except StoreFault Composition
  /-- The functions of a graph, in order of their identities. -/
  functions : GraphId → σ → Except StoreFault (List Description)

namespace GraphStore

variable {σ : Type} [GraphStore σ]

/-- Creates a graph under its own name and saves it there. -/
def importGraph (g : Graph) (s : σ) : Except StoreFault GraphId × σ :=
  let (id, s) := create g.name s
  let (result, s) := save id g s
  (result.map fun _ => id, s)

/-- The last graph with the name. -/
def find (name : String) (s : σ) : Except StoreFault GraphId :=
  match (list s).reverse.find? fun g => g.name == name with
  | some g => .ok g.id
  | none => .error (.nameNotFound name)

end GraphStore

end CallFlow
