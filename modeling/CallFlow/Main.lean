import CallFlow.Command.Disk
import CallFlow.Store.File

/-!
# The program

Reads the files that a command needs, runs the command, and writes the database back.
-/

namespace CallFlow

/-- What is printed for a command line that is not well formed. -/
def usage : String :=
  "usage: [--db PATH] [-v] import FILE [--name NAME] | list | export GRAPH |\n" ++
  "  run GRAPH [-f FUNCTION | -c COMPOSITION] [-i JSON] [--trace] [--snapshot] [--no-type-check]\n"

/-- Reads a text file. -/
def readText (path : String) : IO (Except FileFault String) := do
  try
    return .ok (← IO.FS.readFile path)
  catch e =>
    match e with
    | .noFileOrDirectory _ _ _ => return .error .missing
    | e => return .error (.other (toString e))

/-- Reads the file of a database; a missing file is one without graphs. -/
def readStore (path : String) (access : Access) : IO (Except String Opened) := do
  match ← readText path with
  | .error .missing =>
      if access = .create then return .ok ⟨{}, true⟩
      else return .error "unable to open database file"
  | .error fault => return .error fault.text
  | .ok text =>
      match TableStore.ofText? text with
      | some s => return .ok ⟨s, access ≠ .read⟩
      | none => return .error "file is not a database"

/-- Runs a command on a database that is in no file, or fails to open it. -/
def performWithout (file : Except FileFault String) (c : Command)
    (opened : Except String Opened) : Report :=
  (c.run ⟨fun _ => file, fun _ => opened⟩).1

/-- Runs a command against the files on disk. -/
def perform (c : Command) : IO Report := do
  let file ←
    match c.action with
    | .importFile path _ => readText path
    | _ => pure (.error .missing)
  match Location.parse? c.database with
  | none => return performWithout file c (.error "unable to open database file")
  | some .transient => return performWithout file c (.ok ⟨{}, true⟩)
  | some (.file path access) =>
      let path := (Path.ofText path).text
      let opened ← readStore path access
      match c.run ⟨fun _ => file, fun _ => opened⟩ with
      | (report, none) => return report
      | (report, some s) =>
          if access = .read then return report
          try
            IO.FS.writeFile path s.toText
            return report
          catch e =>
            return .failure 3 ("failed to open database '" ++ c.database ++ "': " ++ toString e)

/-- Runs a command line; the result is the exit code. -/
def runCommandLine (args : List String) : IO UInt32 := do
  match Command.parse? args with
  | none =>
      IO.eprint usage
      return 2
  | some c =>
      let report ← perform c
      IO.print report.out
      IO.eprint report.err
      return report.exit.toUInt32

end CallFlow

/-- The entry point of the program. -/
def main (args : List String) : IO UInt32 := CallFlow.runCommandLine args
