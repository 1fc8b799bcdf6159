import CallFlow.Codec.Run
import CallFlow.Command.Args
import CallFlow.Engine
import CallFlow.Host.Standard
import CallFlow.Store.Tables

/-!
# Running commands

What a command prints and what it leaves in the database.  The exit code is 0 for success, 1 if an
execution failed, 2 for invalid input, and 3 for failures of files and stores.
-/

namespace CallFlow

/-- What a command prints, and its exit code. -/
structure Report where
  exit : Nat
  out : String
  err : String
  deriving DecidableEq, Repr

namespace Report

/-- A success that prints a text. -/
def success (out : String) : Report := ⟨0, out, ""⟩

/-- A failure with a message. -/
def failure (exit : Nat) (message : String) : Report := ⟨exit, "", "Error: " ++ message ++ "\n"⟩

end Report

/-- Why a file cannot be read. -/
inductive FileFault where
  | missing
  /-- A file stands where the path needs a folder. -/
  | notFolder
  | isFolder
  | nameTooLong
  /-- The file holds something else than text. -/
  | notText
  | other (text : String)
  deriving DecidableEq, Repr

/-- The fault in words. -/
def FileFault.text : FileFault → String
  | .missing => "No such file or directory (os error 2)"
  | .notFolder => "Not a directory (os error 20)"
  | .isFolder => "Is a directory (os error 21)"
  | .nameTooLong => "File name too long (os error 36)"
  | .notText => "stream did not contain valid UTF-8"
  | .other text => text

/-- A database that was opened. -/
structure Opened where
  store : TableStore
  writable : Bool

/-- Where commands find files and databases.  A database that does not exist is opened as an empty
one. -/
structure Surroundings where
  readFile : String → Except FileFault String
  openStore : String → Except String Opened

namespace Command

/-- A JSON value on several lines, with the members of objects in order. -/
def printed (j : Json) : String := j.sorted.pretty ++ "\n"

/-- The graph that an argument names: by its number, else by its name. -/
def findGraph (s : TableStore) (graph : String) : Except StoreFault GraphId :=
  match whole? graph with
  | some n => .ok ⟨n⟩
  | none => GraphStore.find graph s

/-- Loads the graph that an argument names. -/
def loadGraph (s : TableStore) (graph : String) : Except Report Graph :=
  match findGraph s graph with
  | .error fault => .error (.failure 3 fault.text)
  | .ok id =>
      match GraphStore.load id s with
      | .ok g => .ok g
      | .error fault => .error (.failure 3 ("failed to load graph " ++ graph ++ ": " ++ fault.text))

/-- Opens the database and goes on with it. -/
def withOpened (around : Surroundings) (database : String)
    (next : Opened → Report × TableStore) : Report × Option TableStore :=
  match around.openStore database with
  | .error text =>
      (.failure 3 ("failed to open database '" ++ database ++ "': " ++ text), none)
  | .ok opened =>
      let (report, s) := next opened
      (report, some s)

/-- Opens the database and goes on with what it holds. -/
def withStore (around : Surroundings) (database : String)
    (next : TableStore → Report × TableStore) : Report × Option TableStore :=
  withOpened around database fun opened => next opened.store

/-! ## Storing and showing graphs -/

/-- What is said about a graph that could not be stored. -/
def notStored (fault : StoreFault) : Report := .failure 3 ("failed to store graph: " ++ fault.text)

/-- Stores a graph and prints its identity and name. -/
def storeGraph (g : Graph) (opened : Opened) : Report × TableStore :=
  if opened.writable then
    match GraphStore.importGraph g opened.store with
    | (.ok id, s) =>
        (.success (printed (.obj [("id", .int id.val), ("name", .str g.name)])), s)
    | (.error fault, s) => (notStored fault, s)
  else (notStored .readOnly, opened.store)

/-- The graph in the text of a file, if it is in order. -/
def graphOfText (file text : String) : Except Report Graph :=
  match Graph.ofText? text with
  | none => .error (.failure 2 ("'" ++ file ++ "' is not a graph snapshot: invalid JSON"))
  | some g =>
      match g.check with
      | .ok () => .ok g
      | .error fault => .error (.failure 2 ("invalid graph: " ++ fault.text))

/-- Stores the graph of a file. -/
def runImport (around : Surroundings) (database file : String) (name : Option String) :
    Report × Option TableStore :=
  match around.readFile file with
  | .error fault => (.failure 3 ("failed to read '" ++ file ++ "': " ++ fault.text), none)
  | .ok text =>
      match graphOfText file text with
      | .error report => (report, none)
      | .ok g => withOpened around database (storeGraph { g with name := name.getD g.name })

/-- One line of a list of graphs. -/
def summaryLine (g : GraphSummary) : String :=
  toString g.id.val ++ "\t" ++ g.name ++ "\t" ++ toString g.functions ++ " functions\t"
    ++ toString g.compositions ++ " compositions\n"

/-- Lists the stored graphs. -/
def runList (s : TableStore) : Report × TableStore :=
  (.success (String.join ((GraphStore.list s).map summaryLine)), s)

/-- Prints a stored graph. -/
def runExport (graph : String) (s : TableStore) : Report × TableStore :=
  match loadGraph s graph with
  | .error report => (report, s)
  | .ok g => (.success (printed g.toJson), s)

/-! ## Executing -/

/-- The inputs in a JSON text. -/
def inputsOf (text : String) : Except Report (List (String × Value)) :=
  match Json.parse? text with
  | none => .error (.failure 2 "invalid inputs JSON: invalid JSON")
  | some j =>
      match Value.ofJson j with
      | .map entries => .ok entries
      | _ => .error (.failure 2 ("inputs must be a JSON object, got " ++ j.sorted.compact))

/-- What to execute.  Without a choice it is the composition that is no function's body, if there is
only one. -/
def targetOf (g : Graph) (options : RunOptions) : Except Report RunTarget :=
  match options.function, options.composition with
  | some name, _ =>
      match g.functionNamed name with
      | .ok id => .ok (.function id)
      | .error fault => .error (.failure 2 fault.text)
  | none, some key =>
      let number := natural? key
      match (Assoc.values g.compositions).find? fun c =>
          some c.id.val == number || c.name == key with
      | some c => .ok (.composition c.id)
      | none => .error (.failure 2 ("no composition '" ++ key ++ "'"))
  | none, none =>
      match (Assoc.values g.compositions).filter fun c => c.represents.isNone with
      | [c] => .ok (.composition c.id)
      | [] =>
          .error (.failure 2
            "graph has no standalone composition; pass --function or --composition")
      | _ =>
          .error (.failure 2 "graph has several standalone compositions; pass --composition")

/-- What a failed execution says. -/
def failureText (fault : RunFault) : String :=
  let detail :=
    match fault with
    | .implementationFailure _ _ _ arguments =>
        if arguments.isEmpty then "" else "  arguments: " ++ arguments ++ "\n"
    | _ => ""
  "Execution failed: " ++ fault.text ++ "\n" ++ detail

/-- What is printed about a run besides its outputs. -/
def details (e : Engine) (options : RunOptions) : List (String × Json) :=
  let trace :=
    match e.trace? with
    | some entries => [("trace", Json.ofList TraceEntry.toJson entries)]
    | none => []
  let snapshot :=
    if options.snapshot then [("snapshot", Json.ofOption Snapshot.toJson e.snapshot?)] else []
  trace ++ snapshot

/-- Executes a target of a graph. -/
def executeGraph (g : Graph) (options : RunOptions) (target : RunTarget)
    (inputs : List (String × Value)) : Report :=
  let engine := Engine.new g Registry.standard.host
    { tracing := options.tracing, checked := options.checked }
  match engine.execute target inputs with
  | none => ⟨1, "", "Execution failed: too many steps\n"⟩
  | some (.ok outputs, e) =>
      let outputs := Value.entriesToJson outputs
      .success (printed (.obj (("outputs", .obj outputs) :: details e options)))
  | some (.error fault, e) =>
      match details e options with
      | [] => ⟨1, "", failureText fault⟩
      | members => ⟨1, printed (.obj members), failureText fault⟩

/-- Executes a target of a stored graph. -/
def runStored (options : RunOptions) (inputs : List (String × Value)) (s : TableStore) :
    Report × TableStore :=
  let report := do
    let g ← loadGraph s options.graph
    let target ← targetOf g options
    return executeGraph g options target inputs
  match report with
  | .ok report => (report, s)
  | .error report => (report, s)

/-- Runs a command.  The result has what the database holds afterwards, if it was opened. -/
def run (around : Surroundings) (c : Command) : Report × Option TableStore :=
  match c.action with
  | .importFile file name => runImport around c.database file name
  | .list => withStore around c.database runList
  | .exportGraph graph => withStore around c.database (runExport graph)
  | .run options =>
      match inputsOf options.inputs with
      | .error report => (report, none)
      | .ok inputs => withStore around c.database (runStored options inputs)

end Command

end CallFlow
