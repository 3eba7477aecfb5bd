import RefMonitor.Proofs.Calling
import RefMonitor.Proofs.Trace

set_option autoImplicit false

namespace RefMonitor

namespace Kernel

def Room (k : Kernel) : Prop := k.frames.length ≤ k.config.maxCallDepth + 1

/-- Whatever is run in this state comes to an end: an evaluator that may nest calls as deep as there
is room for frames, and one deeper for the call that is refused, has an answer, and the answer is
the same however much deeper it may nest them. -/
def Terminates (k : Kernel) : Prop :=
  ∀ more, let enter := enterWithin (k.config.maxCallDepth + 2 - k.frames.length + more)
    (∀ caller s, k.dispatchWith enter caller s = some (k.dispatch caller s)) ∧
    ∀ target selector payload,
      k.invokeWith enter target selector payload = some (k.invoke target selector payload)

variable {k : Kernel}

theorem Room.budget (room : k.Room) :
    k.config.maxCallDepth + 2 - k.frames.length = k.budget := by
  simp only [Room, Kernel.budget] at room ⊢
  omega

theorem Room.terminates (room : k.Room) : k.Terminates := by
  intro more
  have wider := enterWithin_within k.budget more
  rw [room.budget]
  constructor
  · intro caller s
    exact dispatchWith_within wider (dispatchWith_budget k caller s)
  · intro target selector payload
    exact invokeWith_within wider (invokeWith_budget k target selector payload)

theorem Room.pop (room : k.Room) : { k with frames := k.frames.pop }.Room := by
  simp only [Room, FrameStack.length, FrameStack.pop, List.length_tail] at room ⊢
  omega

theorem room_of_push {caller : Option Key} {callee : Key} {frame : Frame} {frames : FrameStack}
    (pushed : k.frames.push caller callee k.config.maxCallDepth = .ok (frame, frames)) :
    { k with frames := frames }.Room := by
  have fits := (FrameStack.frames_of_push pushed).1
  have grown := FrameStack.length_of_push pushed
  simp only [Room]
  omega

end Kernel

open Kernel in
-- A frame is only ever added by a push, which checks that it fits.
theorem Step.room {k next : Kernel} {base : FrameStack} {origin : Origin} {moments : List Moment}
    (step : Step base origin k moments next) (room : k.Room) : next.Room := by
  cases step with
  | watch => exact room
  | commit acting admitted effective committed =>
    obtain ⟨frames, config, -⟩ := commit_ok committed
    rw [Room, frames, config]
    exact room
  | root acting outside pushed => exact room_of_push pushed
  | enter admitted prepared =>
    obtain ⟨frames, pushed, rfl⟩ := prepare_ok prepared
    exact room_of_push pushed
  | unroot | leave => exact room.pop

namespace Kernel

/-- Whatever the modules are, and however they change what the names they call stand for, every
invocation and every syscall comes to an end. -/
theorem nested_execution_terminates (k : Kernel)
    (room : k.frames.length ≤ k.config.maxCallDepth + 1) :
    k.Terminates ∧ ∀ external r, k.Started external r → ∀ m ∈ r.journal, ∀ now,
      m.kernel? = some now →
        now.frames.length ≤ now.config.maxCallDepth + 1 ∧ now.Terminates := by
  refine ⟨Room.terminates room, ?_⟩
  intro external r started m member now seen
  obtain ⟨origin, -, traced⟩ := started.traced
  have kept : now.Room := (Trace.invariant Step.room traced room).2 m member now seen
  exact ⟨kept, kept.terminates⟩

-- Two procedures of one module: each sends the other away, takes it in again, and calls it.
def phoenix : Key := ⟨[112, 104, 111, 101, 110, 105, 120], by simp, by simp⟩

def ashes : Key := ⟨[97, 115, 104, 101, 115], by simp, by simp⟩

def phoenixModule : Module := fun selector payload =>
  .ask .key fun self =>
    let other := if self = phoenix then ashes else phoenix
    .syscall (.delete other) fun _ =>
      .syscall (.register other (.ofUInt64 7) [.call [], .register [], .delete []]) fun _ =>
        .forward (.call other selector payload)

def pyre : Kernel where
  table := Table.history [.create phoenix (.ofUInt64 7) [.call [], .register [], .delete []]]
  entry := none
  frames := .empty
  config := { maxCallDepth := 2 }
  host := Host.empty.install (.ofUInt64 7) phoenixModule

example : (pyre.invoke (some phoenix) ⟨0⟩ []).journal.filterMap Moment.activation? =
    [⟨none, phoenix, 0⟩, ⟨some phoenix, ashes, 1⟩, ⟨some ashes, phoenix, 2⟩] := by
  rfl

theorem nested_execution_terminates_pyre :
    pyre.frames.length ≤ pyre.config.maxCallDepth + 1 ∧
    pyre.invokeWith (enterWithin 3) (some phoenix) ⟨0⟩ [] = none ∧
    pyre.invokeWith (enterWithin 4) (some phoenix) ⟨0⟩ [] =
      some (pyre.invoke (some phoenix) ⟨0⟩ []) := by
  have room : pyre.frames.length ≤ pyre.config.maxCallDepth + 1 := by decide
  exact ⟨room, rfl, ((nested_execution_terminates pyre room).1 0).2 (some phoenix) ⟨0⟩ []⟩

end Kernel

end RefMonitor
