import CallFlow.Store.Basic

/-!
# A store of definitions

The plain store keeps definitions as they are, under the identities inside them.  Of two with one
identity the later counts.
-/

namespace CallFlow

/-- What the plain store keeps of a graph. -/
structure KeptGraph where
  name : String
  functions : Assoc FunctionId Description
  compositions : Assoc CompositionId Composition

/-- The plain store. -/
structure MemoryStore where
  graphs : Assoc GraphId KeptGraph := []
  nextId : Int := 1

namespace MemoryStore

/-- What is kept under an identity. -/
def kept (s : MemoryStore) (id : GraphId) : Except StoreFault KeptGraph :=
  match Assoc.find? s.graphs id with
  | some g => .ok g
  | none => .error (.graphNotFound id)

/-- What is kept of the parts of a graph. -/
def keep (p : GraphParts) : KeptGraph :=
  { name := p.name
    functions := Assoc.sortedOfList FunctionId.before (p.functions.map fun d => (d.id, d))
    compositions :=
      Assoc.sortedOfList CompositionId.before (p.compositions.map fun c => (c.id, c)) }

/-- The parts that are kept of a graph. -/
def partsOf (g : KeptGraph) : GraphParts :=
  ⟨g.name, Assoc.values g.functions, Assoc.values g.compositions⟩

instance : GraphStore MemoryStore where
  empty := {}
  create name s :=
    let id : GraphId := ⟨s.nextId⟩
    (id, { graphs := Assoc.insert s.graphs id ⟨name, [], []⟩, nextId := s.nextId + 1 })
  save id g s :=
    match s.kept id with
    | .error fault => (.error fault, s)
    | .ok _ => (.ok (), { s with graphs := Assoc.insert s.graphs id (keep g.parts) })
  load id s := do (partsOf (← s.kept id)).assemble
  delete id s :=
    match s.kept id with
    | .error fault => (.error fault, s)
    | .ok _ => (.ok (), { s with graphs := Assoc.erase s.graphs id })
  list s := s.graphs.map fun (id, g) => ⟨id, g.name, g.functions.length, g.compositions.length⟩
  function id f s := do
    match Assoc.find? (← s.kept id).functions f with
    | some d => .ok d
    | none => .error (.functionNotFound id f)
  composition id c s := do
    match Assoc.find? (← s.kept id).compositions c with
    | some d => .ok d
    | none => .error (.compositionNotFound id c)
  functions id s := do return Assoc.values (← s.kept id).functions

end MemoryStore

end CallFlow
