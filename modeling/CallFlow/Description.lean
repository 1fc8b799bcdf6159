import CallFlow.Constant
import CallFlow.Id

/-!
# Function descriptions

A description says how a function receives its arguments, what it produces, and where its behaviour
comes from: a composition that is its body, or an implementation found by its path.

`Description.fault?` is the first rule that a description breaks, if it breaks one.
-/

namespace CallFlow

/-- How a parameter receives its argument. -/
inductive ParamKind where
  /-- By position.  Arguments are passed in the order of these indices. -/
  | positional (index : UInt16)
  /-- By keyword. -/
  | keyword (name : String)
  /-- All further positional arguments, as a list. -/
  | varPositional
  /-- All further keyword arguments, as a map. -/
  | varKeyword
  deriving DecidableEq, Repr

/-- A parameter. -/
structure Param where
  name : String
  valueType : ValueType
  kind : ParamKind
  default : Option Constant
  deriving BEq

namespace Param

/-- Does the parameter collect any number of arguments?  Its type is then the type of each. -/
def isVariadic (p : Param) : Bool :=
  match p.kind with
  | .varPositional | .varKeyword => true
  | .positional _ | .keyword _ => false

/-- Does a call fail when the parameter receives nothing? -/
def isRequired (p : Param) : Bool := p.default.isNone && !p.isVariadic

end Param

/-- An output. -/
structure Output where
  name : String
  valueType : ValueType
  deriving DecidableEq, Repr

/-- The last part of an implementation path, which is the name of the method to look for on a
receiver. -/
def memberOf (path : String) : String :=
  String.ofList (path.toList.reverse.takeWhile (· ≠ '.')).reverse

/-- The parts of a path before and after its last point. -/
def splitPath? (path : String) : Option (String × String) :=
  let cs := path.toList.reverse
  match cs.dropWhile (· ≠ '.') with
  | [] => none
  | _ :: rest => some (String.ofList rest.reverse, memberOf path)

/-- The description of a function. -/
structure Description where
  id : FunctionId
  name : String
  params : List Param
  receiver : Option Param
  output : Output
  /-- The receiver as it is after the call. -/
  selfOutput : Option Output
  body : Option CompositionId
  /-- The path of the implementation. -/
  implementation : Option String
  deriving BEq

/-- What can be wrong with a description. -/
inductive DescriptionFault where
  | duplicateName (name : String)
  | duplicateIndex (index : UInt16)
  | duplicateKeyword (name : String)
  | severalVarPositional
  | severalVarKeyword
  | selfOutputWithoutReceiver
  | noParameter (name : String)
  deriving DecidableEq, Repr

/-- The fault in words. -/
def DescriptionFault.text : DescriptionFault → String
  | .duplicateName name => "duplicate parameter name '" ++ name ++ "'"
  | .duplicateIndex i => "duplicate positional index " ++ toString i.toNat
  | .duplicateKeyword name => "duplicate keyword '" ++ name ++ "'"
  | .severalVarPositional => "more than one variadic-positional parameter"
  | .severalVarKeyword => "more than one variadic-keyword parameter"
  | .selfOutputWithoutReceiver => "self-output without a receiver"
  | .noParameter name => "no parameter named '" ++ name ++ "'"

namespace Description

/-- A description without receiver, body and implementation, whose output has no type. -/
def plain (id : FunctionId) (name : String) (params : List Param) : Description :=
  { id, name, params, receiver := none, output := ⟨"result", .any⟩, selfOutput := none,
    body := none, implementation := none }

/-- The number of parameters, the receiver not counted. -/
def arity (d : Description) : Nat := d.params.length

/-- The index of the first parameter that passes the test. -/
def indexWhere? (d : Description) (test : Param → Bool) : Option UInt16 :=
  (d.params.findIdx? test).map UInt16.ofNat

/-- The index of the parameter with the name. -/
def paramIndex? (d : Description) (name : String) : Option UInt16 :=
  d.indexWhere? fun p => p.name == name

/-- The index of the parameter that collects positional arguments. -/
def varPositional? (d : Description) : Option UInt16 :=
  d.indexWhere? fun p => p.kind == .varPositional

/-- The index of the parameter that collects keyword arguments. -/
def varKeyword? (d : Description) : Option UInt16 :=
  d.indexWhere? fun p => p.kind == .varKeyword

/-- The first parameter in the list that repeats the name, the index or the keyword of one before
it; `before` holds those already passed. -/
def repeated? : (before : List Param) → List Param → Option DescriptionFault
  | _, [] => none
  | before, p :: rest =>
      if before.any fun q => q.name == p.name then some (.duplicateName p.name)
      else
        let again := before.any fun q => q.kind == p.kind
        match p.kind, again with
        | .positional i, true => some (.duplicateIndex i)
        | .keyword name, true => some (.duplicateKeyword name)
        | _, _ => repeated? (p :: before) rest

/-- The first rule that the description breaks.  Parameter names, positional indices and keywords
are unique, at most one parameter collects each kind of argument, and there is a self-output only
beside a receiver. -/
def fault? (d : Description) : Option DescriptionFault :=
  match repeated? [] d.params with
  | some fault => some fault
  | none =>
      if 1 < (d.params.filter fun p => p.kind == .varPositional).length then
        some .severalVarPositional
      else if 1 < (d.params.filter fun p => p.kind == .varKeyword).length then
        some .severalVarKeyword
      else if d.selfOutput.isSome && d.receiver.isNone then some .selfOutputWithoutReceiver
      else none

end Description

end CallFlow
