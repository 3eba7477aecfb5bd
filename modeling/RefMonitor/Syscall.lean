import RefMonitor.Capability.Authorize
import RefMonitor.Result

set_option autoImplicit false

namespace RefMonitor

structure Config where
  maxCallDepth : Nat := 256
  maxPayloadLength : Nat := 64 * 1024
  deriving DecidableEq, Inhabited

inductive Syscall where
  | write (address value : Word)
  | log (topics : List Word) (data : Bytes)
  | call (target : Key) (selector : Selector) (payload : Bytes)
  | delete (target : Key)
  | setEntry (target : Key)
  | register (target : Key) (location : Location) (capabilities : List Capability)
  deriving DecidableEq, Inhabited

namespace Syscall

def operation : Syscall → Operation
  | .write .. => .write
  | .log .. => .log
  | .call .. => .call
  | .delete _ => .delete
  | .setEntry _ => .setEntry
  | .register .. => .register

def target? : Syscall → Option Key
  | .write .. | .log .. => none
  | .call target _ _ | .delete target | .setEntry target | .register target _ _ => some target

def wellFormed (config : Config) : Syscall → Bool
  | .write .. => true
  | .log topics data => topics.length ≤ maxTopics && data.length ≤ config.maxPayloadLength
  | .call target _ payload => !target.isNull && payload.length ≤ config.maxPayloadLength
  | .delete target | .setEntry target => !target.isNull
  | .register target _ capabilities =>
    !target.isNull && capabilities.all fun c => c.fault?.isNone

def request (entry : Option Key) : Syscall → Request
  | .write address _ => .write address
  | .log topics _ => .log topics
  | .call target _ _ => .call target
  | .delete target => .delete target entry
  | .setEntry _ => .setEntry
  | .register target _ capabilities => .register target capabilities

theorem operation_request (entry : Option Key) (s : Syscall) :
    (s.request entry).operation = s.operation := by
  cases s <;> rfl

end Syscall

end RefMonitor
