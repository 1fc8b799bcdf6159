import CallFlow.Terminal

/-!
# Arguments

What an implementation is called with, and how it comes from the input terminals of a call.

An input resolves to its fresh value, else to its default, else to an empty aggregate if it
collects arguments.  `Terminals.assemble` resolves all inputs, marks them as read and sorts their
values into positional and keyword arguments.  `Terminals.prepare` writes what an input resolves
to back into its terminal, so that a body can read it.
-/

namespace CallFlow

/-- What an implementation is called with. -/
structure Arguments where
  positional : List Value
  keyword : List (String × Value)
  receiver : Option Value

/-- The arguments in words. -/
def Arguments.text (a : Arguments) : String :=
  let receiver := a.receiver.toList.map fun v => "self=" ++ v.summary
  let positional := a.positional.map Value.summary
  let keyword := a.keyword.map fun (k, v) => k ++ "=" ++ v.summary
  "(" ++ Text.join ", " (receiver ++ positional ++ keyword) ++ ")"

/-- What an input without a fresh value resolves to. -/
def Param.fallback? (p : Param) : Option Value :=
  match p.default with
  | some c => some (.ofConstant c)
  | none =>
      match p.kind with
      | .varPositional => some (.list [])
      | .varKeyword => some (.map [])
      | .positional _ | .keyword _ => none

/-- What an input resolves to. -/
def Terminal.resolve (t : Terminal) (d : Description) (site : Site) (p : Param) :
    Except RunFault Value :=
  match (if t.isFresh then t.peek else none) with
  | some v => .ok v
  | none =>
      match p.fallback? with
      | some v => .ok v
      | none => .error (.unresolvedInput site d.name p.name)

/-- The values of the arguments by the way they are passed: positional ones with their indices,
keyword ones, and the two aggregates. -/
structure Sorted where
  positional : List (UInt16 × Value) := []
  keyword : List (String × Value) := []
  items : List Value := []
  entries : List (String × Value) := []

/-- Numeric order of positional arguments.  Equal indices keep their order. -/
def indexLe (a b : UInt16 × Value) : Bool := a.1 ≤ b.1

/-- Adds the value of one parameter.  An aggregate needs a value of its shape. -/
def Sorted.add (s : Sorted) (p : Param) (t : Terminal) (v : Value) : Except RunFault Sorted :=
  match p.kind with
  | .positional i => .ok { s with positional := s.positional ++ [(i, v)] }
  | .keyword name => .ok { s with keyword := Assoc.insert s.keyword name v }
  | .varPositional =>
      match v with
      | .list items => .ok { s with items }
      | other => .error (.typeMismatch t.place .list (.whole other))
  | .varKeyword =>
      match v with
      | .map entries => .ok { s with entries }
      | other => .error (.typeMismatch t.place .map (.whole other))

/-- Adds the values of all parameters. -/
def Sorted.addAll : Sorted → List ((Param × Terminal) × Value) → Except RunFault Sorted
  | s, [] => .ok s
  | s, ((p, t), v) :: rest =>
      match s.add p t v with
      | .ok s' => addAll s' rest
      | .error fault => .error fault

/-- Positional arguments in order of their indices and then the collected ones; keyword arguments
and then the collected ones, which may replace them. -/
def Sorted.arguments (s : Sorted) (receiver : Option Value) : Arguments :=
  { positional := (s.positional.mergeSort indexLe).map (·.2) ++ s.items
    keyword := Assoc.insertAll s.keyword s.entries
    receiver }

namespace Terminals

/-- What the receiver resolves to, where one is declared. -/
def resolveReceiver (ts : Terminals) (d : Description) (site : Site) :
    Except RunFault (Option Value) :=
  match d.receiver, ts.receiver with
  | some p, some t => (t.resolve d site p).map some
  | _, _ => .ok none

/-- What all inputs of a call resolve to: the parameters in order, and the receiver. -/
def resolveAll (ts : Terminals) (d : Description) (site : Site) :
    Except RunFault (List Value × Option Value) := do
  let values ← (d.params.zip ts.params).mapM fun (p, t) => t.resolve d site p
  let receiver ← ts.resolveReceiver d site
  return (values, receiver)

/-- Reads all inputs of a call.  While an input does not resolve, nothing is read; a value that has
the wrong shape for its aggregate is noticed only after all were read. -/
def assemble (ts : Terminals) (d : Description) (site : Site) :
    Except RunFault Arguments × Terminals :=
  match ts.resolveAll d site with
  | .error fault => (.error fault, ts)
  | .ok (values, receiver) =>
      let sorted := Sorted.addAll {} ((d.params.zip ts.params).zip values)
      (sorted.map fun s => s.arguments receiver, ts.consumeInputs)

/-- The terminal with what its input resolves to, unless it is fresh. -/
def prepareOne (d : Description) (site : Site) (p : Param) (t : Terminal) :
    Except RunFault Terminal :=
  if t.isFresh then .ok t
  else
    match t.resolve d site p with
    | .ok v => t.write none v
    | .error fault => .error fault

/-- Prepares parameters in order, up to the first that fails. -/
def prepareParams (d : Description) (site : Site) : List Param → List Terminal →
    Except RunFault Unit × List Terminal
  | p :: ps, t :: ts =>
      match prepareOne d site p t with
      | .error fault => (.error fault, t :: ts)
      | .ok t' =>
          let (result, rest) := prepareParams d site ps ts
          (result, t' :: rest)
  | _, ts => (.ok (), ts)

/-- Prepares the inputs of a call for its body: parameters in order and then the receiver, up to the
first that fails. -/
def prepare (ts : Terminals) (d : Description) (site : Site) : Except RunFault Unit × Terminals :=
  match prepareParams d site d.params ts.params with
  | (.error fault, params) => (.error fault, { ts with params })
  | (.ok (), params) =>
      match d.receiver, ts.receiver with
      | some p, some t =>
          match prepareOne d site p t with
          | .ok t' => (.ok (), { ts with params, receiver := some t' })
          | .error fault => (.error fault, { ts with params })
      | _, _ => (.ok (), { ts with params })

end Terminals

end CallFlow
