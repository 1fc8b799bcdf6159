import CallFlow.Command.Location
import CallFlow.Command.Path
import CallFlow.Command.Run

/-!
# A disk

A folder with text files and databases, on which commands can be run one after the other.  Text
files are found by following a path from folder to folder.  The path of a database is taken as it
stands, so a folder that it leaves again need not exist.  A database is created when it is first
opened, and an empty file becomes one then.
-/

namespace CallFlow

/-- The files and databases of a disk, by their paths. -/
structure Disk where
  files : Assoc Path String := []
  databases : Assoc Path TableStore := []

namespace Disk

/-- A disk with text files. -/
def ofFiles (files : List (String × String)) : Disk :=
  { files := Assoc.ofList (files.map fun (path, text) => (Path.ofText path, text)) }

/-! ## What is where -/

/-- What a path can lead to. -/
inductive Entry where
  | folder
  | text (text : String)
  | database (store : TableStore)
  | nothing

/-- Folders that stand under the root of every system. -/
def systemFolders : List String :=
  ["bin", "dev", "etc", "home", "lib", "mnt", "opt", "proc", "run", "sbin", "srv", "sys", "tmp",
    "usr", "var"]

/-- Is there a folder?  Besides those of the system these are the working folder, those around it,
and all in which a file lies. -/
def hasFolder (d : Disk) (p : Path) : Bool :=
  p.names.isEmpty || (p.fromRoot && systemFolders.any fun name => p.names == [name])
    || d.files.any (fun f => p.contains f.1) || d.databases.any fun s => p.contains s.1

/-- What a path leads to. -/
def entry (d : Disk) (p : Path) : Entry :=
  match Assoc.find? d.databases p, Assoc.find? d.files p with
  | some s, _ => .database s
  | none, some text => .text text
  | none, none => if d.hasFolder p then .folder else .nothing

/-- How many bytes a name may have. -/
def nameLimit : Nat := 255

/-- How many bytes a path may have. -/
def pathLimit : Nat := 4095

/-! ## Text files -/

/-- Follows the parts of a path, each of which has to start from a folder. -/
def follow (d : Disk) : Path → (parts : List String) → Except FileFault Path
  | p, [] => .ok p
  | p, part :: rest =>
      match d.entry p with
      | .folder =>
          if nameLimit < part.utf8ByteSize then .error .nameTooLong
          else d.follow (p.step part) rest
      | .nothing => .error .missing
      | _ => .error .notFolder

/-- Reads a text file. -/
def readFile (d : Disk) (path : String) : Except FileFault String :=
  if path.isEmpty then .error .missing
  else if pathLimit < path.utf8ByteSize then .error .nameTooLong
  else do
    match d.entry (← d.follow (Path.startOf path) (Path.partsOf path)) with
    | .text text => .ok text
    | .database _ => .error .notText
    | .folder => .error .isFolder
    | .nothing => .error .missing

/-! ## Databases -/

/-- Goes on to the next part of the path of a database, unless it starts from a file or its name is
too long. -/
def stepForDatabase? (d : Disk) (p : Path) (part : String) : Option Path :=
  if p.step part = p || part = ".." then some (p.step part)
  else
    match d.entry p with
    | .folder | .nothing =>
        if nameLimit < part.utf8ByteSize then none else some (p.step part)
    | _ => none

/-- The path of a database that a text gives. -/
def databasePath? (d : Disk) (text : String) : Option Path :=
  (Path.partsOf text).foldlM d.stepForDatabase? (Path.startOf text)

/-- What the name of the journal has behind that of its database. -/
def journalEnding : String := "-journal"

/-- Is the name of a new database short enough for that of its journal? -/
def hasJournalName (p : Path) : Bool :=
  match p.names with
  | name :: _ => name.utf8ByteSize + journalEnding.utf8ByteSize ≤ nameLimit
  | [] => false

/-- A file of no more bytes than these counts as empty. -/
def emptySize : Nat := 1

/-- Opens the file of a database. -/
def openFile (d : Disk) (p : Path) (access : Access) : Except String Opened :=
  match d.entry p with
  | .database s => .ok ⟨s, access ≠ .read⟩
  | .text text =>
      if emptySize < text.utf8ByteSize then .error "file is not a database"
      else if access = .read then .error "attempt to write a readonly database"
      else if hasJournalName p then .ok ⟨{}, true⟩
      else .error "unable to open database file"
  | .folder => .error "unable to open database file"
  | .nothing =>
      if access = .create && d.hasFolder p.parent && hasJournalName p then .ok ⟨{}, true⟩
      else .error "unable to open database file"

/-- The file of a database, unless it is in none. -/
def databaseFile? (d : Disk) (database : String) : Option (Path × Access) :=
  match Location.parse? database with
  | some (.file path access) => (d.databasePath? path).map fun p => (p, access)
  | _ => none

/-- Opens a database. -/
def openStore (d : Disk) (database : String) : Except String Opened :=
  match Location.parse? database, d.databaseFile? database with
  | some .transient, _ => .ok ⟨{}, true⟩
  | _, some (p, access) => d.openFile p access
  | _, none => .error "unable to open database file"

/-- Puts a database back. -/
def keep (d : Disk) (database : String) (s : TableStore) : Disk :=
  match d.databaseFile? database with
  | some (p, _) =>
      { files := Assoc.erase d.files p
        databases := Assoc.insert d.databases p s }
  | none => d

/-! ## Commands -/

/-- The disk as commands see it. -/
def surroundings (d : Disk) : Surroundings := ⟨d.readFile, d.openStore⟩

/-- Runs a command on the disk. -/
def execute (d : Disk) (c : Command) : Report × Disk :=
  match c.run d.surroundings with
  | (report, some s) => (report, d.keep c.database s)
  | (report, none) => (report, d)

end Disk

end CallFlow
