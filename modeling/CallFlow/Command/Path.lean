import CallFlow.Text.Split

/-!
# Paths

The text of a path names folders one inside the other, with slashes between them, from the root or
from the working folder.  `Path.ofText` is where it leads if its names are taken as they stand,
whether there are such folders or not; different texts of one path give the same result.
-/

namespace CallFlow

/-- A path from the root or from the working folder, in its shortest form. -/
structure Path where
  fromRoot : Bool := false
  /-- How many folders the way goes up first. -/
  up : Nat := 0
  /-- The names on the way down, the last one first. -/
  names : List String := []
  deriving DecidableEq, Repr

namespace Path

/-- The folder around the end of a path.  The root has none and stands for it. -/
def parent (p : Path) : Path :=
  match p.names with
  | _ :: rest => { p with names := rest }
  | [] => if p.fromRoot then p else { p with up := p.up + 1 }

/-- A path with one more part of its text. -/
def step (p : Path) (part : String) : Path :=
  if part = "" || part = "." then p
  else if part = ".." then p.parent
  else { p with names := part :: p.names }

/-- Where the text of a path starts. -/
def startOf (text : String) : Path := { fromRoot := text.toList.head? == some '/' }

/-- The parts of the text of a path.  Slashes at its ends and next to each other leave empty
parts. -/
def partsOf (text : String) : List String := Text.splitOn "/" text

/-- The path of a text. -/
def ofText (text : String) : Path := (partsOf text).foldl step (startOf text)

/-- A text of the path. -/
def text (p : Path) : String :=
  let way := Text.join "/" (List.replicate p.up ".." ++ p.names.reverse)
  if p.fromRoot then "/" ++ way else if way.isEmpty then "." else way

/-- Does the second path end inside the folder at the end of the first one, at any depth? -/
def contains (p q : Path) : Bool :=
  p.fromRoot == q.fromRoot && p.up == q.up && p.names.length < q.names.length
    && p.names.isSuffixOf q.names

end Path

end CallFlow
