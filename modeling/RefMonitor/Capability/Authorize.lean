import RefMonitor.Capability.Held

set_option autoImplicit false

namespace RefMonitor

inductive Request where
  | write (address : Word)
  | log (topics : List Word)
  | call (target : Key)
  -- The entry procedure of the moment, if any, cannot be the target.
  | delete (target : Key) (entry : Option Key)
  | setEntry
  | register (target : Key) (grants : List Capability)
  deriving DecidableEq

inductive Denied where
  | noCapability (op : Operation)
  | outOfScope (op : Operation)
  | protectedTarget
  | amplification (grant : Nat)
  deriving DecidableEq

def Denied.message : Denied → String
  | .noCapability op => s!"no {op} capability held"
  | .outOfScope op => s!"request outside every held {op} scope"
  | .protectedTarget => "entry procedure cannot be deleted"
  | .amplification grant => s!"grant {grant} exceeds the registrant's authority"

namespace Request

def operation : Request → Operation
  | .write _ => .write
  | .log _ => .log
  | .call _ => .call
  | .delete .. => .delete
  | .setEntry => .setEntry
  | .register .. => .register

def strandsEntry : Request → Bool
  | .delete target (some entry) => target == entry
  | _ => false

end Request

def Capability.permits (c : Capability) : Request → Bool
  | .write address => c.permitsWrite address
  | .log topics => c.permitsLog topics
  | .call target | .delete target _ | .register target _ => c.permitsProcedure target
  | .setEntry => true

namespace Held

-- Redirecting the entry has no scope, so holding the capability is enough.
def permits (held : Held) (request : Request) : Bool :=
  match request with
  | .setEntry => true
  | _ => (held.forOperation request.operation).any (·.permits request)

def covers (held : Held) (grant : Capability) : Bool :=
  (held.forOperation grant.operation).any (grant.isSubsetOf ·)

def firstUncovered? (held : Held) (grants : List Capability) : Option Nat :=
  grants.findIdx? (!held.covers ·)

def authorize (held : Held) (request : Request) : Except Denied Unit :=
  let op := request.operation
  if request.strandsEntry then .error .protectedTarget
  else if !held.holds op then .error (.noCapability op)
  else if !held.permits request then .error (.outOfScope op)
  else match request with
    | .register _ grants =>
      match held.firstUncovered? grants with
      | some i => .error (.amplification i)
      | none => .ok ()
    | _ => .ok ()

end Held

end RefMonitor
