/-
Advancers: the transitions of a graph.

An advancer leads from the node that owns it to a target and fires on the values its guard accepts; without a guard it
never fires. A direct advancer delivers the value as it is. A converting advancer runs a converter first, and the type
that the converter declares to return is what has to fit the target. Guards and converters are functions that may
panic; a converter may also refuse a value with a message.
-/
import StepFlow.NodeId
import StepFlow.TypeDesc.Basic
import StepFlow.Value.Basic

namespace StepFlow

/-- an abrupt end of a guard, a converter or a step, with its text if it has one -/
structure Panic where
  message : Option String
  deriving DecidableEq

/-- the text of a panic as failures show it -/
def Panic.text (panic : Panic) : String :=
  panic.message.getD "non-string panic payload"

/-- a predicate on the output of a node -/
abbrev Guard := Value → Except Panic Bool

/-- a value that a converter refused -/
structure ConversionError where
  reason : String
  deriving DecidableEq

def ConversionError.message (error : ConversionError) : String :=
  "conversion failed: " ++ error.reason

/-- a conversion with the type it declares to return -/
structure Converter where
  returns : TypeDesc
  apply : Value → Except Panic (Except ConversionError Value)

/-- a transition to another node -/
structure Advancer where
  target : NodeId
  guard : Option Guard := none
  converter : Option Converter := none

namespace Advancer

/-- a transition that delivers the value as it is -/
def direct (target : NodeId) : Advancer := { target := target }

/-- a transition that converts the value first -/
def converting (target : NodeId) (converter : Converter) : Advancer :=
  { target := target, converter := some converter }

/-- the advancer with this guard in place of any other -/
def when (advancer : Advancer) (guard : Guard) : Advancer :=
  { advancer with guard := some guard }

/-- the advancer with a guard that accepts every value -/
def always (advancer : Advancer) : Advancer :=
  advancer.when fun _ => .ok true

def isDirect (advancer : Advancer) : Bool := advancer.converter.isNone

def isGuarded (advancer : Advancer) : Bool := advancer.guard.isSome

/-- Whether the advancer fires on a value. Without a guard it never does. -/
def fires (advancer : Advancer) (value : Value) : Except Panic Bool :=
  match advancer.guard with
  | none => .ok false
  | some guard => guard value

/-- the value that reaches the target -/
def deliver (advancer : Advancer) (value : Value) : Except Panic (Except ConversionError Value) :=
  match advancer.converter with
  | none => .ok (.ok value)
  | some converter => converter.apply value

end Advancer

end StepFlow
