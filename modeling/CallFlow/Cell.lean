import CallFlow.Value.Basic

/-!
# Cells

A cell holds one value, or a list or map that is put together element by element.  It also knows
whether its owner has read it: a cell that was read still shows its value, but it is not read again,
and the next write starts afresh.
-/

namespace CallFlow

/-- What a cell holds. -/
inductive Contents where
  | empty
  | scalar (value : Value)
  /-- Elements of a list by position, the last position first.  Positions may be missing. -/
  | list (items : List (Nat × Value))
  /-- Entries of a map, in the order in which their keys arrived. -/
  | map (entries : List (String × Value))
  deriving Inhabited

/-- A place for a value. -/
structure Cell where
  contents : Contents := .empty
  /-- Has the owner read the contents? -/
  consumed : Bool := false
  deriving Inhabited

namespace Cell

/-- Does the cell hold anything? -/
def isWritten (c : Cell) : Bool :=
  match c.contents with
  | .empty => false
  | .scalar _ | .list _ | .map _ => true

/-- Was the cell written since its owner last read it? -/
def isFresh (c : Cell) : Bool := c.isWritten && !c.consumed

/-- The contents that the next write adds to: none if the owner has read them. -/
def base (c : Cell) : Contents := if c.consumed then .empty else c.contents

/-- Replaces the contents by one value. -/
def write (_ : Cell) (v : Value) : Cell := ⟨.scalar v, false⟩

/-- Later positions stand before earlier ones. -/
def isLater (a b : Nat) : Bool := b < a

/-- Writes an element of a list.  Contents of another kind are dropped. -/
def writeIndex (c : Cell) (position : Nat) (v : Value) : Cell :=
  match c.base with
  | .list items => ⟨.list (Assoc.insertSorted isLater items position v), false⟩
  | .empty | .scalar _ | .map _ => ⟨.list [(position, v)], false⟩

/-- The position after the last element.  Positions are words, so that the first one comes behind
the greatest.  A list without gaps does not get there: it would have an element for each word. -/
def nextPosition : Contents → Nat
  | .list ((last, _) :: earlier) =>
      if last + 1 < UInt64.size ∨ last ≤ earlier.length then last + 1 else 0
  | .list [] | .empty | .scalar _ | .map _ => 0

/-- Writes an element after the last one. -/
def append (c : Cell) (v : Value) : Cell := c.writeIndex (nextPosition c.base) v

/-- Writes an entry of a map.  Contents of another kind are dropped. -/
def writeKey (c : Cell) (key : String) (v : Value) : Cell :=
  match c.base with
  | .map entries => ⟨.map (Assoc.insert entries key v), false⟩
  | .empty | .scalar _ | .list _ => ⟨.map [(key, v)], false⟩

/-- Writes by a strategy, or the whole value without one. -/
def writeBy (c : Cell) (strategy : Option Strategy) (v : Value) : Cell :=
  match strategy with
  | none => c.write v
  | some (.index i) => c.writeIndex i v
  | some .append => c.append v
  | some (.key k) => c.writeKey k v

/-- The value that the cell shows; a list that is put together has no gaps. -/
def peek (c : Cell) : Option Value :=
  match c.contents with
  | .empty => none
  | .scalar v => some v
  | .list items => some (.list (Assoc.values items).reverse)
  | .map entries => some (.map entries)

/-- Reads the value, which works once after a write. -/
def take (c : Cell) : Option Value × Cell :=
  if c.isFresh then (c.peek, { c with consumed := true }) else (none, c)

/-- Marks the contents as read. -/
def consume (c : Cell) : Cell := { c with consumed := true }

/-- The cell that holds nothing. -/
def clear (_ : Cell) : Cell := {}

/-! ## What a cell shows -/

theorem isSome_peek (c : Cell) : c.peek.isSome = c.isWritten := by
  unfold peek isWritten
  cases c.contents <;> rfl

theorem isWritten_writeIndex (c : Cell) (position : Nat) (v : Value) :
    (c.writeIndex position v).isWritten = true := by
  unfold writeIndex
  cases c.base <;> rfl

theorem isWritten_writeBy (c : Cell) (strategy : Option Strategy) (v : Value) :
    (c.writeBy strategy v).isWritten = true := by
  match strategy with
  | none => rfl
  | some (.index i) => exact c.isWritten_writeIndex i v
  | some .append => exact c.isWritten_writeIndex _ v
  | some (.key k) =>
      unfold writeBy writeKey
      cases c.base <;> rfl

theorem consumed_writeIndex (c : Cell) (position : Nat) (v : Value) :
    (c.writeIndex position v).consumed = false := by
  unfold writeIndex
  cases c.base <;> rfl

theorem consumed_writeBy (c : Cell) (strategy : Option Strategy) (v : Value) :
    (c.writeBy strategy v).consumed = false := by
  match strategy with
  | none => rfl
  | some (.index i) => exact c.consumed_writeIndex i v
  | some .append => exact c.consumed_writeIndex _ v
  | some (.key k) =>
      unfold writeBy writeKey
      cases c.base <;> rfl

/-- A write makes the cell fresh. -/
theorem isFresh_writeBy (c : Cell) (strategy : Option Strategy) (v : Value) :
    (c.writeBy strategy v).isFresh = true := by
  simp [isFresh, isWritten_writeBy, consumed_writeBy]

/-- A fresh cell shows a value. -/
theorem exists_peek_of_isFresh {c : Cell} (h : c.isFresh = true) : ∃ v, c.peek = some v := by
  rw [isFresh, Bool.and_eq_true] at h
  exact Option.isSome_iff_exists.1 (c.isSome_peek.trans h.1)

theorem isFresh_clear (c : Cell) : c.clear.isFresh = false := rfl

end Cell

end CallFlow
