import CallFlow.Text.Ranges

/-!
# Cutting text into parts

`cutAt` cuts at the first of a character, `splitOn` at a separator, `words` at runs of white
space, and `join` puts parts together.
-/

namespace CallFlow.Text

/-- White space, in the sense of the Unicode property of that name. -/
def isSpace (c : Char) : Bool :=
  inRanges c.toNat [(9, 13), (32, 32), (133, 133), (160, 160), (5760, 5760), (8192, 8202),
    (8232, 8233), (8239, 8239), (8287, 8287), (12288, 12288)]

/-- What is before the first of a character, and what is behind it. -/
def cutAt (c : Char) : List Char → Option (List Char × List Char)
  | [] => none
  | d :: rest =>
      if d = c then some ([], rest) else
        (cutAt c rest).map fun (before, behind) => (d :: before, behind)

theorem cutAt_eq_none_iff {c : Char} {text : List Char} : cutAt c text = none ↔ c ∉ text := by
  induction text with
  | nil => simp [cutAt]
  | cons d rest ih =>
      rw [cutAt]
      by_cases h : d = c
      · simp [h]
      · simp [h, ih, Ne.symm h]

theorem cutAt_eq_some_iff {c : Char} {text before behind : List Char} :
    cutAt c text = some (before, behind) ↔ c ∉ before ∧ text = before ++ c :: behind := by
  induction text generalizing before with
  | nil => simp [cutAt]
  | cons d rest ih =>
      rw [cutAt]
      split
      case isTrue h =>
        subst h
        cases before with
        | nil => simp
        | cons e before =>
            rw [List.mem_cons, not_or, List.cons_append, List.cons.injEq]
            exact iff_of_false (by simp) fun hall => hall.1.1 hall.2.1
      case isFalse h =>
        cases before with
        | nil => simp [h]
        | cons e before =>
            simp only [Option.map_eq_some_iff, Prod.exists, Prod.mk.injEq, List.cons_append,
              List.cons.injEq,
              List.mem_cons, not_or]
            constructor
            case mp =>
              rintro ⟨_, _, hcut, ⟨rfl, rfl⟩, rfl⟩
              obtain ⟨hbefore, hrest⟩ := ih.1 hcut
              exact ⟨⟨Ne.symm h, hbefore⟩, rfl, hrest⟩
            case mpr =>
              rintro ⟨⟨-, hbefore⟩, rfl, hrest⟩
              exact ⟨before, behind, ih.2 ⟨hbefore, hrest⟩, ⟨rfl, rfl⟩, rfl⟩

theorem cutAt_append {c : Char} {before : List Char} (h : c ∉ before) (behind : List Char) :
    cutAt c (before ++ c :: behind) = some (before, behind) :=
  cutAt_eq_some_iff.2 ⟨h, rfl⟩

/-- Cuts before every occurrence of a separator that is not empty.  `skip` counts the characters of
an occurrence that are still to be dropped, and `part` holds the current part, last character
first. -/
def splitFrom (separator : List Char) : (skip : Nat) → (part : List Char) → List Char →
    List (List Char)
  | _, part, [] => [part.reverse]
  | skip + 1, part, _ :: rest => splitFrom separator skip part rest
  | 0, part, c :: rest =>
      if separator.isPrefixOf (c :: rest) then
        part.reverse :: splitFrom separator (separator.length - 1) [] rest
      else splitFrom separator 0 (c :: part) rest

/-- The parts of a text between occurrences of the separator, found from left to right.  The empty
separator cuts between all characters, and before the first and after the last one. -/
def splitOn (separator text : String) : List String :=
  match separator.toList with
  | [] => "" :: text.toList.map (fun c => String.ofList [c]) ++ [""]
  | cs => (splitFrom cs 0 [] text.toList).map String.ofList

/-- The words of the characters; `word` is the current one, last character first. -/
def wordsFrom : (word : List Char) → List Char → List (List Char)
  | word, [] => if word.isEmpty then [] else [word.reverse]
  | word, c :: rest =>
      if isSpace c then
        if word.isEmpty then wordsFrom [] rest else word.reverse :: wordsFrom [] rest
      else wordsFrom (c :: word) rest

/-- The parts of a text between runs of white space, none of them empty. -/
def words (text : String) : List String := (wordsFrom [] text.toList).map String.ofList

/-- The parts in a row, with the separator between neighbours. -/
def join (separator : String) : List String → String
  | [] => ""
  | s :: rest => rest.foldl (fun joined part => joined ++ separator ++ part) s

end CallFlow.Text
