import CallFlow.Text.Hex
import CallFlow.Text.Split

/-!
# Where a database is kept

A database is named by a path, or by a URI with the scheme `file`, whose query may say how the
database is to be opened.  Databases without a name, and those named `:memory:`, are in no file.
-/

namespace CallFlow

/-- What may be done with the file of a database. -/
inductive Access where
  /-- The file is made if it is missing. -/
  | create
  | write
  | read
  deriving DecidableEq, Repr

/-- Where a database is kept. -/
inductive Location where
  /-- In no file: the database is new whenever it is opened. -/
  | transient
  | file (path : String) (access : Access)
  deriving DecidableEq, Repr

namespace Location

/-- The place of a database that a path names. -/
def ofPath (path : String) (access : Access) : Location :=
  if path.isEmpty || path = ":memory:" then .transient else .file path access

/-! ## Escapes -/

/-- The byte that two hexadecimal digits denote, given their own bytes. -/
def escapedByte? (high low : UInt8) : Option UInt8 := do
  let h ← Text.hexDigit? (Char.ofNat high.toNat)
  let l ← Text.hexDigit? (Char.ofNat low.toNat)
  return UInt8.ofNat (16 * h + l)

/-- The byte of a percent sign, behind which the digits of another byte may stand. -/
def percent : UInt8 := 37

/-- Bytes with a percent sign and two digits read as one byte.  The byte zero ends them. -/
def unescapedBytes : List UInt8 → List UInt8
  | b :: high :: low :: rest =>
      if b = percent then
        match escapedByte? high low with
        | some 0 => []
        | some e => e :: unescapedBytes rest
        | none => b :: unescapedBytes (high :: low :: rest)
      else b :: unescapedBytes (high :: low :: rest)
  | bytes => bytes

/-- A text without its escapes.  If the result is no text, it stays as it is. -/
def unescaped (text : String) : String :=
  (String.fromUTF8? ⟨(unescapedBytes text.toUTF8.toList).toArray⟩).getD text

/-! ## URIs -/

/-- The characters before the first one of a kind, and those behind it. -/
def cutAt (c : Char) (cs : List Char) : List Char × List Char :=
  (cs.takeWhile (· ≠ c), (cs.dropWhile (· ≠ c)).drop 1)

/-- The path in a URI, without its authority, which has to be empty or the machine itself. -/
def afterAuthority? : List Char → Option (List Char)
  | '/' :: '/' :: rest =>
      let authority := String.ofList (rest.takeWhile (· ≠ '/'))
      if authority = "" || authority = "localhost" then some (rest.dropWhile (· ≠ '/')) else none
  | cs => some cs

/-- The names and values in a query. -/
def settingsOf (query : List Char) : List (String × String) :=
  (Text.splitOn "&" (String.ofList query)).map fun setting =>
    let (name, value) := cutAt '=' setting.toList
    (unescaped (String.ofList name), unescaped (String.ofList value))

/-- The kinds of file systems that a query may name. -/
def fileSystems : List String := ["unix", "unix-none", "unix-dotfile", "unix-excl", "memdb"]

/-- A location as one setting changes it.  Settings with unknown names have no effect. -/
def set? (location : Location) : String × String → Option Location
  | ("mode", mode) =>
      match location, mode with
      | .transient, "ro" | .transient, "rw" | .transient, "rwc" => some location
      | .file path _, "ro" => some (.file path .read)
      | .file path _, "rw" => some (.file path .write)
      | .file path _, "rwc" => some (.file path .create)
      | _, "memory" => some .transient
      | _, _ => none
  | ("cache", mode) => if mode = "shared" || mode = "private" then some location else none
  | ("vfs", name) =>
      if name = "memdb" then some .transient
      else if fileSystems.contains name then some location
      else none
  | _ => some location

/-- The location that a URI names, given what follows its scheme.  A fragment does not count. -/
def ofUri? (cs : List Char) : Option Location := do
  let (cs, _) := cutAt '#' (← afterAuthority? cs)
  let (name, query) := cutAt '?' cs
  (settingsOf query).foldlM set? (ofPath (unescaped (String.ofList name)) .create)

/-- The location that a path or a URI names. -/
def parse? (database : String) : Option Location :=
  match database.toList with
  | 'f' :: 'i' :: 'l' :: 'e' :: ':' :: rest => ofUri? rest
  | _ => some (ofPath database .create)

end Location

end CallFlow
