import RefMonitor.Kernel.Basic

set_option autoImplicit false

namespace RefMonitor

inductive Obstacle where
  | unregistered
  | noModule (location : Location)
  | tooDeep (limit : Nat)
  deriving DecidableEq

def Obstacle.rejection : Obstacle → Rejection
  | .unregistered | .noModule _ => .notFound
  | .tooDeep _ => .callDepthExceeded

/-- One moment of a run. A kernel in it is the state at that moment. -/
inductive Moment where
  | registered (key : Key) (index count : Nat)
  | appointed (key : Key) (location : Location)
  | unanswered (target : Option Key)
  -- A syscall was checked, before any effect.
  | attempted (kernel : Kernel) (caller : Key) (request : Syscall) (verdict : Except Refusal Unit)
  -- A syscall came back, after its effects.
  | settled (kernel : Kernel) (caller : Key) (request : Syscall) (outcome : Outcome)
  | blocked (kernel : Kernel) (callee : Key) (obstacle : Obstacle)
  -- A module got control, in the frame that is innermost now.
  | entered (kernel : Kernel) (frame : Frame) (selector : Selector) (payload : Bytes)
  -- A module gave control back, in the frame that is still innermost.
  | left (kernel : Kernel) (frame : Frame) (result : ModuleResult)
  | asked (kernel : Kernel) (key : Key) (query : Query) (answer : query.Answer)
  | noted (kernel : Kernel) (key : Key) (note : Note)

structure Run (α : Type) where
  value : α
  kernel : Kernel
  journal : List Moment

namespace Run

def map {α β : Type} (f : α → β) (r : Run α) : Run β := { r with value := f r.value }

def after {α : Type} (earlier : List Moment) (r : Run α) : Run α :=
  { r with journal := earlier ++ r.journal }

end Run

end RefMonitor
