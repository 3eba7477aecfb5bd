import RefMonitor.Key
import RefMonitor.Operation

set_option autoImplicit false

namespace RefMonitor

/-- One grant of authority. An empty list of names or topics stands for all of them. -/
inductive Capability where
  | write (address size : Word)
  | log (topics : List Word)
  | call (procedures : List Key)
  | delete (procedures : List Key)
  | setEntry
  | register (procedures : List Key)
  deriving DecidableEq, Inhabited

def maxTopics : Nat := 4

inductive CapabilityError where
  | tooManyTopics
  | nullProcedure
  deriving DecidableEq

def CapabilityError.message : CapabilityError → String
  | .tooManyTopics => s!"log scope exceeds {maxTopics} topics"
  | .nullProcedure => "procedure scope contains the null key"

-- A range whose end lies past the last word reaches the last word.
def inRange (address size slot : Word) : Bool :=
  if size.isZero || slot < address then false
  else match address.add? size with
    | some finish => slot < finish
    | none => true

def rangeWithin (address size outer outerSize : Word) : Bool :=
  if size.isZero then true
  else if outerSize.isZero || address < outer then false
  else match address.add? size, outer.add? outerSize with
    | _, none => true
    | none, some _ => false
    | some finish, some outerFinish => finish ≤ outerFinish

def inScope (scope : List Key) (target : Key) : Bool := scope.isEmpty || scope.contains target

-- All names lie inside no list of names.
def scopeWithin (scope outer : List Key) : Bool :=
  if outer.isEmpty then true else !scope.isEmpty && scope.all outer.contains

namespace Capability

def operation : Capability → Operation
  | .write .. => .write
  | .log _ => .log
  | .call _ => .call
  | .delete _ => .delete
  | .setEntry => .setEntry
  | .register _ => .register

def fault? : Capability → Option CapabilityError
  | .log topics => if topics.length > maxTopics then some .tooManyTopics else none
  | .call procedures | .delete procedures | .register procedures =>
    if procedures.any Key.isNull then some .nullProcedure else none
  | .write .. | .setEntry => none

def Valid (c : Capability) : Prop := c.fault? = none

instance (c : Capability) : Decidable c.Valid := inferInstanceAs (Decidable (_ = _))

def permitsWrite : Capability → Word → Bool
  | .write address size, slot => inRange address size slot
  | _, _ => false

def permitsLog : Capability → List Word → Bool
  | .log [], emitted => emitted.length ≤ maxTopics
  | .log topics, emitted => topics == emitted
  | _, _ => false

def permitsProcedure : Capability → Key → Bool
  | .call procedures, target | .delete procedures, target | .register procedures, target =>
    inScope procedures target
  | .setEntry, _ => true
  | .write .., _ | .log _, _ => false

def isSubsetOf : Capability → Capability → Bool
  | .write address size, .write outer outerSize => rangeWithin address size outer outerSize
  | .log topics, .log outer => outer.isEmpty || outer == topics
  | .call scope, .call outer => scopeWithin scope outer
  | .delete scope, .delete outer => scopeWithin scope outer
  | .register scope, .register outer => scopeWithin scope outer
  | .setEntry, .setEntry => true
  | _, _ => false

private def scopeText (scope : List Key) : String :=
  if scope.isEmpty then "(*)" else "(" ++ ", ".intercalate (scope.map Key.name) ++ ")"

def text : Capability → String
  | .write address size => s!"Write({address}, {size})"
  | .log topics => s!"Log({topics.length} topics)"
  | .call scope => "Call" ++ scopeText scope
  | .delete scope => "Delete" ++ scopeText scope
  | .setEntry => "SetEntry"
  | .register scope => "Register" ++ scopeText scope

instance : ToString Capability := ⟨text⟩

end Capability

end RefMonitor
