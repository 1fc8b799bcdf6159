/-!
# Identities

Functions, compositions and calls are named by numbers.  The three kinds of number are kept apart by
their types.
-/

namespace CallFlow

/-- The identity of a function description. -/
structure FunctionId where
  val : Nat
  deriving DecidableEq, Repr, Inhabited

/-- The identity of a composition. -/
structure CompositionId where
  val : Nat
  deriving DecidableEq, Repr, Inhabited

/-- The identity of an applied call, which no other call of the same graph shares. -/
structure CallId where
  val : Nat
  deriving DecidableEq, Repr, Inhabited

/-- The number of the function. -/
def FunctionId.text (id : FunctionId) : String := toString id.val

/-- The number of the composition. -/
def CompositionId.text (id : CompositionId) : String := toString id.val

/-- The number of the call. -/
def CallId.text (id : CallId) : String := toString id.val

/-- The call as messages list it. -/
def CallId.listed (id : CallId) : String := "CallId(" ++ id.text ++ ")"

/-- Numeric order of functions. -/
def FunctionId.before (a b : FunctionId) : Bool := a.val < b.val

/-- Numeric order of compositions. -/
def CompositionId.before (a b : CompositionId) : Bool := a.val < b.val

end CallFlow
