import RefMonitor.Kernel.Basic

set_option autoImplicit false

namespace RefMonitor

inductive Violation where
  | entryCount (entries records : Nat)
  | misplaced (key : Key) (position : Nat)
  | wrongIndex (key : Key) (position index : Nat)
  | nullKey (index : Nat)
  | invalidCapability (key : Key) (capability : Capability) (fault : CapabilityError)
  | wrongDepth (depth recorded : Nat)
  | wrongCaller (depth : Nat) (recorded below : Option Key)
  deriving DecidableEq

def Violation.rule : Violation → String
  | .entryCount .. | .misplaced .. => "key_uniqueness"
  | .wrongIndex .. => "index_consistency"
  | .nullKey _ => "no_null_keys"
  | .invalidCapability .. => "capability_validity"
  | .wrongDepth .. | .wrongCaller .. => "frame_discipline"

namespace Table

-- The number of entries in the map is compared and each record looked up; the map is never
-- walked.
def keyViolations (t : Table) : List Violation :=
  (if t.positions.size = t.length then [] else [.entryCount t.positions.size t.length]) ++
  t.records.zipIdx.flatMap fun (r, position) =>
    if t.positions[r.key]? = some position then [] else [.misplaced r.key position]

def indexViolations (t : Table) : List Violation :=
  t.records.zipIdx.flatMap fun (r, position) =>
    if r.index = position + 1 then [] else [.wrongIndex r.key position r.index]

def nullViolations (t : Table) : List Violation :=
  t.records.flatMap fun r => if r.key.isNull then [.nullKey r.index] else []

def capabilityViolations (t : Table) : List Violation :=
  t.records.flatMap fun r => r.capabilities.caps.flatMap fun c =>
    match c.fault? with
    | some fault => [.invalidCapability r.key c fault]
    | none => []

structure Sound (t : Table) : Prop where
  nodup_keys : t.keys.Nodup
  null_not_mem : Key.null ∉ t.keys
  positions : ∀ (key : Key) (position : Nat),
    t.positions[key]? = some position ↔ t.keys[position]? = some key
  index : ∀ (position : Nat) (r : Procedure), t.records[position]? = some r → r.index = position + 1
  valid : ∀ r ∈ t.records, ∀ c ∈ r.capabilities.caps, c.Valid

def Summarized (t : Table) : Prop :=
  ∀ r ∈ t.records, r.capabilities.kinds = Held.summary r.capabilities.caps

end Table

namespace FrameStack

-- The faults of frames given from the outermost in, above `depth` frames of which the
-- innermost belongs to `below`.
def violationsFrom (depth : Nat) (below : Option Key) : List Frame → List Violation
  | [] => []
  | f :: frames =>
    (if f.depth = depth then [] else [.wrongDepth depth f.depth]) ++
    (if f.caller = below then [] else [.wrongCaller depth f.caller below]) ++
    violationsFrom (depth + 1) (some f.callee) frames

def violations (s : FrameStack) : List Violation := violationsFrom 0 none s.outermostFirst

structure Disciplined (s : FrameStack) : Prop where
  depth : ∀ (i : Nat) (f : Frame), s.outermostFirst[i]? = some f → f.depth = i
  outermost : ∀ f : Frame, s.outermostFirst[0]? = some f → f.caller = none
  inner : ∀ (i : Nat) (f g : Frame), s.outermostFirst[i]? = some f →
    s.outermostFirst[i + 1]? = some g → g.caller = some f.callee

end FrameStack

namespace Kernel

def violations (k : Kernel) : List Violation :=
  k.table.keyViolations ++ k.table.indexViolations ++ k.table.nullViolations ++
    k.table.capabilityViolations ++ k.frames.violations

def Sound (k : Kernel) : Prop := k.table.Sound ∧ k.frames.Disciplined

end Kernel

end RefMonitor
