import CallFlow.Composition.Basic

/-!
# Sites and places

A site is where a call executes, and a place is where a terminal is.
-/

namespace CallFlow

/-- Where a call executes. -/
inductive Site where
  /-- As a call of a composition. -/
  | call (id : CallId)
  /-- As the function that was asked for. -/
  | entry (function : FunctionId)
  deriving DecidableEq, Repr

namespace Site

/-- The site in words. -/
def text : Site → String
  | .call id => "call " ++ id.text
  | .entry function => "entry of function " ++ function.text

/-- The call of a composition that the site is. -/
def call? : Site → Option CallId
  | .call id => some id
  | .entry _ => none

end Site

/-- Where a terminal is: at a port of a call, or in a variable of a composition. -/
inductive Place where
  | port (site : Site) (port : Port) (name : String)
  | variable (name : String)
  deriving DecidableEq, Repr

namespace Place

/-- The name of the parameter, output or variable. -/
def name : Place → String
  | .port _ _ name => name
  | .variable name => name

/-- The port, unless the place is a variable. -/
def port? : Place → Option Port
  | .port _ p _ => some p
  | .variable _ => none

/-- The place in words. -/
def text : Place → String
  | .port site p name => site.text ++ "." ++ p.text ++ " '" ++ name ++ "'"
  | .variable name => "var " ++ name

end Place

/-- A place inside one composition that mappings can write. -/
inductive Slot where
  | call (call : CallId) (port : Port)
  | boundary (port : Port)
  | variable (name : String)
  deriving DecidableEq, Repr

namespace Slot

/-- The slot that an endpoint addresses; constants have none. -/
def of? : Endpoint → Option Slot
  | .constant _ => none
  | .call id port => some (.call id port)
  | .boundary p => some (.boundary p)
  | .variable name => some (.variable name)

/-- Can mappings write the slot?  That is so for inputs of calls, outputs of the boundary, and
variables. -/
def isInput : Slot → Bool
  | .call _ port => !port.isOutput
  | .boundary port => port.isOutput
  | .variable _ => true

/-- The slot as messages show it. -/
def text : Slot → String
  | .call id port => "call " ++ id.text ++ "." ++ port.text
  | .boundary port => "boundary." ++ port.text
  | .variable name => "var " ++ name

end Slot

end CallFlow
