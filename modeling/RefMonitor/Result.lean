import RefMonitor.Operation
import RefMonitor.Text

set_option autoImplicit false

namespace RefMonitor

abbrev Bytes := List UInt8

inductive Rejection where
  | capabilityDenied
  | notFound
  | protectedTarget
  | duplicateKey
  | invalidArgument
  | unknownCaller
  | callDepthExceeded
  deriving DecidableEq, Inhabited

namespace Rejection

def all : List Rejection := [.capabilityDenied, .notFound, .protectedTarget, .duplicateKey,
  .invalidArgument, .unknownCaller, .callDepthExceeded]

def name : Rejection → String
  | .capabilityDenied => "CapabilityDenied"
  | .notFound => "NotFound"
  | .protectedTarget => "ProtectedTarget"
  | .duplicateKey => "DuplicateKey"
  | .invalidArgument => "InvalidArgument"
  | .unknownCaller => "UnknownCaller"
  | .callDepthExceeded => "CallDepthExceeded"

instance : ToString Rejection := ⟨name⟩

def code : Rejection → UInt8
  | .capabilityDenied => 1
  | .notFound => 2
  | .protectedTarget => 3
  | .duplicateKey => 4
  | .invalidArgument => 5
  | .unknownCaller => 6
  | .callDepthExceeded => 7

def ofCode? (low : UInt8) : Option Rejection := all.find? (·.code == low)

end Rejection

structure ResultCode where
  value : UInt8
  deriving DecidableEq, Inhabited

namespace ResultCode

def success : ResultCode := ⟨0⟩

def badPayload : ResultCode := ⟨0xfd⟩

def unknownSelector : ResultCode := ⟨0xfe⟩

def reverted : ResultCode := ⟨0xff⟩

def isSuccess (c : ResultCode) : Bool := c.value == 0

def operation? (c : ResultCode) : Option Operation := Operation.ofCode? (c.value &&& 0xf0)

-- The low half means a rejection only below a high half that means an operation.
def rejection? (c : ResultCode) : Option Rejection :=
  match c.operation? with
  | some _ => Rejection.ofCode? (c.value &&& 0x0f)
  | none => none

def asFailure (c : ResultCode) : ResultCode := if c.isSuccess then reverted else c

def debugText (c : ResultCode) : String := "ResultCode(0x" ++ Hex.ofBytes [c.value] ++ ")"

end ResultCode

inductive Failure where
  | rejected (op : Operation) (kind : Rejection)
  | reverted (code : ResultCode)
  deriving DecidableEq, Inhabited

namespace Failure

def code : Failure → ResultCode
  | .rejected op kind => ⟨op.code ||| kind.code⟩
  | .reverted code => code

def rejection? : Failure → Option Rejection
  | .rejected _ kind => some kind
  | .reverted _ => none

def message : Failure → String
  | .rejected op kind => s!"{op} rejected: {kind}"
  | .reverted code => "callee reverted with " ++ code.debugText

end Failure

abbrev Outcome := Except Failure Bytes

def Outcome.code : Outcome → ResultCode
  | .ok _ => .success
  | .error f => f.code

abbrev ModuleResult := Except ResultCode Bytes

-- The failure of a module reaches its caller under the same code, unless the code is zero.
def ModuleResult.outcome : ModuleResult → Outcome
  | .ok data => .ok data
  | .error code => .error (.reverted code.asFailure)

end RefMonitor
