import RefMonitor.Key

set_option autoImplicit false

namespace RefMonitor

-- One activation of a procedure. An external invocation has no caller.
structure Frame where
  caller : Option Key
  callee : Key
  depth : Nat
  deriving DecidableEq, Inhabited

-- Innermost first.
structure FrameStack where
  frames : List Frame
  deriving DecidableEq, Inhabited

structure DepthExceeded where
  limit : Nat
  deriving DecidableEq

namespace FrameStack

def empty : FrameStack := ⟨[]⟩

def length (s : FrameStack) : Nat := s.frames.length

def isEmpty (s : FrameStack) : Bool := s.frames.isEmpty

def current? (s : FrameStack) : Option Frame := s.frames.head?

def push (s : FrameStack) (caller : Option Key) (callee : Key) (limit : Nat) :
    Except DepthExceeded (Frame × FrameStack) :=
  if s.length > limit then .error ⟨limit⟩
  else
    let frame := ⟨caller, callee, s.length⟩
    .ok (frame, ⟨frame :: s.frames⟩)

def pop (s : FrameStack) : FrameStack := ⟨s.frames.tail⟩

def outermostFirst (s : FrameStack) : List Frame := s.frames.reverse

theorem isEmpty_iff {s : FrameStack} : s.isEmpty = true ↔ s.frames = [] := List.isEmpty_iff

theorem frames_of_push {s after : FrameStack} {caller : Option Key} {callee : Key} {limit : Nat}
    {frame : Frame} (h : s.push caller callee limit = .ok (frame, after)) :
    s.length ≤ limit ∧ frame = ⟨caller, callee, s.length⟩ ∧ after.frames = frame :: s.frames := by
  unfold push at h
  split at h
  · cases h
  · cases h
    exact ⟨by omega, rfl, rfl⟩

theorem length_of_push_error {s : FrameStack} {caller : Option Key} {callee : Key} {limit : Nat}
    {refused : DepthExceeded} (h : s.push caller callee limit = .error refused) :
    limit < s.length := by
  unfold push at h
  split at h
  next full => exact full
  next => cases h

theorem pop_of_push {s after : FrameStack} {caller : Option Key} {callee : Key} {limit : Nat}
    {frame : Frame} (h : s.push caller callee limit = .ok (frame, after)) : after.pop = s := by
  rw [pop, (frames_of_push h).2.2]
  rfl

theorem length_of_push {s after : FrameStack} {caller : Option Key} {callee : Key} {limit : Nat}
    {frame : Frame} (h : s.push caller callee limit = .ok (frame, after)) :
    after.length = s.length + 1 := by
  simp [length, (frames_of_push h).2.2]

end FrameStack

end RefMonitor
