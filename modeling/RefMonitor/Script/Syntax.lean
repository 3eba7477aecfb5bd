import RefMonitor.Program

set_option autoImplicit false

namespace RefMonitor.Script

inductive WordExpr where
  | literal (w : Word)
  | argument (index : Nat)
  | slot (address : WordExpr)
  | depth
  deriving Inhabited

inductive BytesExpr where
  | literal (bytes : Bytes)
  | payload
  | last
  | words (words : List WordExpr)
  deriving Inhabited

inductive KeyExpr where
  | literal (key : Key)
  | self
  -- The null key, where there is no caller.
  | caller
  deriving Inhabited

inductive SyscallExpr where
  | write (address value : WordExpr)
  | log (topics : List WordExpr) (data : BytesExpr)
  | call (target : KeyExpr) (selector : Option Selector) (data : BytesExpr)
  | delete (target : KeyExpr)
  | setEntry (target : KeyExpr)
  | register (target : KeyExpr) (location : WordExpr) (capabilities : List Capability)
  deriving Inhabited

def SyscallExpr.operation : SyscallExpr → Operation
  | .write .. => .write
  | .log .. => .log
  | .call .. => .call
  | .delete _ => .delete
  | .setEntry _ => .setEntry
  | .register .. => .register

structure Manner where
  -- Only the result code is seen, not the data.
  reduced : Bool
  -- The script goes on after a failure.
  tolerant : Bool
  deriving Inhabited

inductive Action where
  | syscall (call : SyscallExpr) (manner : Manner)
  | read (slot : WordExpr)
  | procedures
  | capabilities
  | entry
  | frame
  | giveBack (data : BytesExpr)
  | fail (code : ResultCode)
  | failLast
  deriving Inhabited

-- An action that is skipped at other depths than `onlyAt`, and from the depth `onlyBelow` on.
structure Instruction where
  onlyAt : Option Nat
  onlyBelow : Option Nat
  action : Action
  deriving Inhabited

end RefMonitor.Script

namespace RefMonitor

abbrev Script := List Script.Instruction

end RefMonitor
