set_option autoImplicit false

namespace RefMonitor

/-- The six operations that need authority. Each has its own kind of capability and its own class
of rejection codes. -/
inductive Operation where
  | call
  | register
  | delete
  | setEntry
  | write
  | log
  deriving DecidableEq, Inhabited

namespace Operation

-- By wire identifier.
def all : List Operation := [.call, .register, .delete, .setEntry, .write, .log]

theorem mem_all (op : Operation) : op ∈ all := by cases op <;> decide

def name : Operation → String
  | .call => "Call"
  | .register => "Register"
  | .delete => "Delete"
  | .setEntry => "SetEntry"
  | .write => "Write"
  | .log => "Log"

instance : ToString Operation := ⟨name⟩

def wireId : Operation → Nat
  | .call => 3
  | .register => 4
  | .delete => 5
  | .setEntry => 6
  | .write => 7
  | .log => 8

def ofWireId? : Nat → Option Operation
  | 3 => some .call
  | 4 => some .register
  | 5 => some .delete
  | 6 => some .setEntry
  | 7 => some .write
  | 8 => some .log
  | _ => none

theorem ofWireId?_wireId (op : Operation) : ofWireId? op.wireId = some op := by
  cases op <;> rfl

theorem wireId_eq_of_ofWireId? {n : Nat} {op : Operation} (h : ofWireId? n = some op) :
    op.wireId = n := by
  unfold ofWireId? at h
  split at h <;> cases h <;> rfl

def bit : Operation → UInt8
  | .write => 1
  | .log => 2
  | .call => 4
  | .delete => 8
  | .setEntry => 16
  | .register => 32

-- By summary bit.
def byBit : List Operation := [.write, .log, .call, .delete, .setEntry, .register]

def bitName : Operation → String
  | .write => "WRITE"
  | .log => "LOG"
  | .call => "CALL"
  | .delete => "DELETE"
  | .setEntry => "SET_ENTRY"
  | .register => "REGISTER"

def code : Operation → UInt8
  | .write => 0x10
  | .log => 0x20
  | .call => 0x30
  | .delete => 0x40
  | .setEntry => 0x50
  | .register => 0x60

def ofCode? (high : UInt8) : Option Operation := all.find? (·.code == high)

end Operation

end RefMonitor
