import CallFlow.Graph.Fault

/-!
# Graphs

A graph holds function descriptions and compositions under their identities, and the next free
identity of each kind.  The key under which a definition stands is what a lookup uses; the identity
inside the definition is what the definition says about itself.

Besides lookups this file has the queries that are derived from them, the reassembly of a graph from
its parts, and equality of graphs.
-/

namespace CallFlow

/-- Function descriptions and compositions, in order of their keys. -/
structure Graph where
  name : String
  functions : Assoc FunctionId Description
  compositions : Assoc CompositionId Composition
  nextFunction : Nat
  nextComposition : Nat
  nextCall : Nat
  deriving BEq

namespace Graph

/-- A graph without functions and compositions. -/
def empty (name : String) : Graph := ⟨name, [], [], 0, 0, 0⟩

/-- The greatest successor of the numbers, or zero if there are none.  Identities are words, so that
the successor of the greatest word is zero. -/
def above (ns : List Nat) : Nat := ns.foldl (fun m n => max m ((n + 1) % UInt32.size)) 0

/-- The graph of the given definitions, under the identities inside them; of two with one identity
the later counts.  The next free identities are above all in use, as far as there are words. -/
def ofParts (name : String) (functions : List Description) (compositions : List Composition) :
    Graph :=
  { name
    functions := Assoc.sortedOfList FunctionId.before (functions.map fun d => (d.id, d))
    compositions := Assoc.sortedOfList CompositionId.before (compositions.map fun c => (c.id, c))
    nextFunction := above (functions.map fun d => d.id.val)
    nextComposition := above (compositions.map fun c => c.id.val)
    nextCall := above ((compositions.flatMap (·.calls)).map fun d => d.id.val) }

/-! ## Lookups -/

/-- The function description under a key. -/
def function (g : Graph) (id : FunctionId) : Except GraphFault Description :=
  match Assoc.find? g.functions id with
  | some d => .ok d
  | none => .error (.functionNotFound id)

/-- The composition under a key. -/
def composition (g : Graph) (id : CompositionId) : Except GraphFault Composition :=
  match Assoc.find? g.compositions id with
  | some c => .ok c
  | none => .error (.compositionNotFound id)

/-- The identity that the first function with the name has inside its description. -/
def functionNamed (g : Graph) (name : String) : Except GraphFault FunctionId :=
  match (Assoc.values g.functions).find? fun d => d.name == name with
  | some d => .ok d.id
  | none => .error (.unknownName name)

/-! ## Derived queries -/

/-- The single start call of a composition, if it has one.  Several starts are ambiguous. -/
def startOf (g : Graph) (id : CompositionId) : Except GraphFault (Option CallId) :=
  match g.composition id with
  | .error fault => .error fault
  | .ok c =>
      match c.starts with
      | [] => .ok none
      | [start] => .ok (some start)
      | starts => .error (.severalStarts id starts)

/-- The default of a parameter or of the receiver. -/
def defaultOf (g : Graph) (id : FunctionId) (port : Port) : Except GraphFault (Option Constant) :=
  (g.function id).map fun d =>
    match port with
    | .param i => d.params[i.toNat]?.bind (·.default)
    | .receiver => d.receiver.bind (·.default)
    | .output | .selfOutput => none

/-- Where control goes after a call of a composition. -/
def successorOf (g : Graph) (id : CompositionId) (call : CallId) : Except GraphFault Successor :=
  match g.composition id with
  | .error fault => .error fault
  | .ok c =>
      match c.call? call with
      | some d => .ok d.successor
      | none => .error (.callNotFound id call)

end Graph

end CallFlow
