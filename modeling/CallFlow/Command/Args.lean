/-!
# Command lines

The commands of the program and how they are written.  Options may stand in any order; the options
of the program itself may stand before or after the name of the command, where the later place
counts.  An option is given once at each place.
-/

namespace CallFlow

/-- What to execute and how. -/
structure RunOptions where
  graph : String
  function : Option String
  composition : Option String
  /-- The inputs as JSON text. -/
  inputs : String
  tracing : Bool
  snapshot : Bool
  checked : Bool
  deriving DecidableEq, Repr

/-- What to do. -/
inductive Action where
  /-- Store the graph in a file, possibly under another name. -/
  | importFile (file : String) (name : Option String)
  | list
  /-- Print a stored graph. -/
  | exportGraph (graph : String)
  | run (options : RunOptions)
  deriving DecidableEq, Repr

/-- What to do with which database. -/
structure Command where
  database : String
  action : Action
  deriving DecidableEq, Repr

namespace Command

/-- The database that is used if none is named. -/
def defaultDatabase : String := "semflow.db"

/-! ## Options -/

/-- An option: its name, its letter if it has one, and whether a value follows it. -/
structure OptionRule where
  name : String
  letter : Option Char
  takesValue : Bool

/-- The options of the program. -/
def globalRules : List OptionRule := [⟨"db", none, true⟩, ⟨"verbose", some 'v', false⟩]

/-- The options of each command, besides those of the program. -/
def actionRules : String → List OptionRule
  | "import" => [⟨"name", none, true⟩]
  | "run" => [⟨"function", some 'f', true⟩, ⟨"composition", some 'c', true⟩,
      ⟨"inputs", some 'i', true⟩, ⟨"trace", none, false⟩, ⟨"snapshot", none, false⟩,
      ⟨"no-type-check", none, false⟩]
  | _ => []

/-- What was found on a command line. -/
structure Found where
  flags : List String := []
  values : List (String × String) := []
  operands : List String := []

/-- Adds a flag, unless it is there. -/
def Found.flag? (f : Found) (name : String) : Option Found :=
  if f.flags.contains name then none else some { f with flags := name :: f.flags }

/-- Adds the value of an option, unless it has one. -/
def Found.value? (f : Found) (name value : String) : Option Found :=
  if (f.values.lookup name).isSome then none
  else some { f with values := (name, value) :: f.values }

/-- Reads letters behind one dash.  The result also names the option that still needs a value. -/
def letters? (rules : List OptionRule) (f : Found) : List Char → Option (Found × Option String)
  | [] => some (f, none)
  | c :: rest =>
      match rules.find? fun r => r.letter == some c with
      | none => none
      | some r =>
          if r.takesValue then
            match rest with
            | [] => some (f, some r.name)
            | '=' :: value => (f.value? r.name (String.ofList value)).map fun f => (f, none)
            | value => (f.value? r.name (String.ofList value)).map fun f => (f, none)
          else
            match f.flag? r.name with
            | some f => letters? rules f rest
            | none => none

/-- Reads a name behind two dashes, possibly with a value behind an equals sign.  The result also
names the option that still needs a value. -/
def word? (rules : List OptionRule) (f : Found) (cs : List Char) :
    Option (Found × Option String) :=
  let name := String.ofList (cs.takeWhile (· ≠ '='))
  match rules.find? fun r => r.name == name, cs.dropWhile (· ≠ '=') with
  | none, _ => none
  | some r, [] =>
      if r.takesValue then some (f, some name) else (f.flag? name).map fun f => (f, none)
  | some r, _ :: value =>
      if r.takesValue then (f.value? name (String.ofList value)).map fun f => (f, none) else none

/-- Reads arguments.  `pending` names an option whose value comes next.  If `first` is set, reading
stops at the first operand and gives the arguments behind it too. -/
def scan? (rules : List OptionRule) (first : Bool) :
    (pending : Option String) → Found → List String → Option (Found × List String)
  | none, f, [] => some (f, [])
  | some _, _, [] => none
  | pending, f, arg :: rest =>
      match pending, arg.toList with
      | some name, cs =>
          match cs with
          | '-' :: _ :: _ => none
          | _ =>
              match f.value? name arg with
              | some f => scan? rules first none f rest
              | none => none
      | none, ['-', '-'] =>
          if first then none else some ({ f with operands := f.operands ++ rest }, [])
      | none, '-' :: '-' :: cs =>
          match word? rules f cs with
          | some (f, pending) => scan? rules first pending f rest
          | none => none
      | none, '-' :: c :: cs =>
          match letters? rules f (c :: cs) with
          | some (f, pending) => scan? rules first pending f rest
          | none => none
      | none, _ =>
          let f := { f with operands := f.operands ++ [arg] }
          if first then some (f, rest) else scan? rules first none f rest

/-! ## Commands -/

/-- The action of a command with its options and operands. -/
def action? (name : String) (f : Found) : Option Action :=
  match name, f.operands with
  | "import", [file] =>
      if file.isEmpty then none else some (.importFile file (f.values.lookup "name"))
  | "list", [] => some .list
  | "export", [graph] => some (.exportGraph graph)
  | "run", [graph] =>
      let function := f.values.lookup "function"
      let composition := f.values.lookup "composition"
      if function.isSome && composition.isSome then none
      else some (.run {
        graph, function, composition
        inputs := (f.values.lookup "inputs").getD "\x7b\x7d"
        tracing := f.flags.contains "trace"
        snapshot := f.flags.contains "snapshot"
        checked := !f.flags.contains "no-type-check" })
  | _, _ => none

/-- The command of a command line, if it is well formed. -/
def parse? (args : List String) : Option Command := do
  let (outer, rest) ← scan? globalRules true none {} args
  match outer.operands with
  | [name] =>
      let (inner, _) ← scan? (globalRules ++ actionRules name) false none {} rest
      let action ← action? name inner
      let database :=
        ((inner.values.lookup "db").orElse fun _ => outer.values.lookup "db").getD defaultDatabase
      return { database, action }
  | _ => none

/-! ## Numbers in arguments -/

/-- The number that decimal digits denote, if there are some and nothing else. -/
def digits? (cs : List Char) : Option Nat :=
  if cs.isEmpty || !cs.all Char.isDigit then none
  else some (cs.foldl (fun n c => 10 * n + (c.toNat - 48)) 0)

/-- A whole number with an optional sign, if it fits 64 bits. -/
def whole? (s : String) : Option Int :=
  let n : Option Int :=
    match s.toList with
    | '-' :: cs => (digits? cs).map fun n => -(n : Int)
    | '+' :: cs => (digits? cs).map fun n => (n : Int)
    | cs => (digits? cs).map fun n => (n : Int)
  n.filter fun n => Int64.minValue.toInt ≤ n && n ≤ Int64.maxValue.toInt

/-- A whole number without a minus sign, if it fits 32 bits. -/
def natural? (s : String) : Option Nat :=
  let n :=
    match s.toList with
    | '+' :: cs => digits? cs
    | cs => digits? cs
  n.filter fun n => n < UInt32.size

end Command

end CallFlow
