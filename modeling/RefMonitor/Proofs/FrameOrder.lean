import RefMonitor.Kernel.Invariant
import RefMonitor.Proofs.Activity
import RefMonitor.Proofs.Trace

set_option autoImplicit false

namespace RefMonitor

namespace FrameStack

/-- Frames as calls leave them, innermost first: each is as deep as there are frames below it, none
is deeper than the limit, and each was called by the callee of the frame right below it. -/
inductive Stacked (limit : Nat) : List Frame → Prop where
  | nil : Stacked limit []
  | push {frames : List Frame} {callee : Key} (below : Stacked limit frames)
      (room : frames.length ≤ limit) :
      Stacked limit (⟨frames.head?.map Frame.callee, callee, frames.length⟩ :: frames)

def Above (s below : FrameStack) : Prop := below.frames <:+ s.frames ∧ below.length < s.length

theorem Above.trans {s middle below : FrameStack} (upper : s.Above middle)
    (lower : middle.Above below) : s.Above below :=
  ⟨lower.1.trans upper.1, Nat.lt_trans lower.2 upper.2⟩

theorem occupied {s : FrameStack} {frame : Frame} (innermost : s.current? = some frame) :
    s.isEmpty = false := by
  obtain ⟨below, frames⟩ := List.head?_eq_some_iff.mp innermost
  simp [isEmpty, frames]

theorem Stacked.head {limit : Nat} {frame : Frame} {frames : List Frame}
    (stacked : Stacked limit (frame :: frames)) :
    frame.depth = frames.length ∧ frames.length ≤ limit := by
  cases stacked with
  | push below room => exact ⟨rfl, room⟩

theorem Stacked.pushed {s after : FrameStack} {callee : Key} {limit : Nat} {frame : Frame}
    (stacked : Stacked limit s.frames)
    (pushed : s.push (s.current?.map Frame.callee) callee limit = .ok (frame, after)) :
    Stacked limit after.frames := by
  obtain ⟨room, rfl, grown⟩ := frames_of_push pushed
  rw [grown]
  exact .push stacked room

private theorem Stacked.reverse_depth {limit : Nat} {frames : List Frame}
    (stacked : Stacked limit frames) (i : Nat) (f : Frame) (there : frames.reverse[i]? = some f) :
    f.depth = i := by
  induction stacked with
  | nil => simp at there
  | @push frames callee below room ih =>
    rw [List.reverse_cons, List.getElem?_append, List.length_reverse] at there
    split at there
    next => exact ih there
    next =>
      rw [List.getElem?_singleton] at there
      split at there
      next =>
        cases there
        dsimp only
        omega
      next => cases there

private theorem Stacked.reverse_outermost {limit : Nat} {frames : List Frame}
    (stacked : Stacked limit frames) (f : Frame) (there : frames.reverse[0]? = some f) :
    f.caller = none := by
  induction stacked with
  | nil => simp at there
  | @push frames callee below room ih =>
    cases frames with
    | nil =>
      cases there
      rfl
    | cons frame frames =>
      rw [List.reverse_cons, List.getElem?_append_left (by simp)] at there
      exact ih there

private theorem Stacked.reverse_inner {limit : Nat} {frames : List Frame}
    (stacked : Stacked limit frames) (i : Nat) (f g : Frame) (there : frames.reverse[i]? = some f)
    (above : frames.reverse[i + 1]? = some g) : g.caller = some f.callee := by
  induction stacked with
  | nil => simp at there
  | @push frames callee below room ih =>
    rw [List.reverse_cons, List.getElem?_append, List.length_reverse] at there above
    split at above
    next inside =>
      rw [if_pos (by omega)] at there
      exact ih there above
    next =>
      rw [List.getElem?_singleton] at above
      split at above
      next =>
        -- The new frame comes right after the one that was innermost.
        cases above
        have last : i = frames.length - 1 := by omega
        rw [if_pos (by omega), last, ← List.length_reverse, ← List.getLast?_eq_getElem?,
          List.getLast?_reverse] at there
        simp [there]
      next => cases above

theorem Stacked.disciplined {limit : Nat} {s : FrameStack} (stacked : Stacked limit s.frames) :
    s.Disciplined where
  depth := stacked.reverse_depth
  outermost := stacked.reverse_outermost
  inner := stacked.reverse_inner

end FrameStack

-- The kernel at a moment where a module has control, and the key it acts as. Outside every frame
-- it is the outside world that acts.
def Moment.control? : Moment → Option (Kernel × Key)
  | .entered k frame _ _ | .left k frame _ => some (k, frame.callee)
  | .attempted k key _ _ | .settled k key _ _ | .asked k key _ _ | .noted k key _ =>
    if k.frames.isEmpty then none else some (k, key)
  | .registered .. | .appointed .. | .unanswered _ | .blocked .. => none

namespace Kernel

structure Framed (config : Config) (k : Kernel) : Prop where
  limits : k.config = config
  stacked : FrameStack.Stacked config.maxCallDepth k.frames.frames

def Seats (k : Kernel) (self : Key) : Prop :=
  k.frames.isEmpty = true ∨ k.frames.current?.map Frame.callee = some self

structure Activated (config : Config) (base : FrameStack) (frame : Frame) (callee : Key)
    (k : Kernel) : Prop where
  framed : k.Framed config
  innermost : k.frames.current? = some frame
  named : frame.callee = callee
  above : k.frames.Above base

variable {config : Config} {base : FrameStack} {k inside : Kernel} {self callee : Key}
  {module : Module} {frame : Frame}

theorem Framed.reframe (framed : k.Framed config) {next : Kernel} (limits : next.config = k.config)
    (frames : next.frames = k.frames) : next.Framed config where
  limits := limits.trans framed.limits
  stacked := by
    rw [frames]
    exact framed.stacked

theorem Activated.seats (activated : k.Activated config base frame callee) : k.Seats callee := by
  refine .inr ?_
  rw [activated.innermost, ← activated.named]
  rfl

theorem Framed.grounded (framed : k.Framed config) (seats : k.Seats self) :
    (k.grounded self).Framed config ∧
      (k.grounded self).frames.current?.map Frame.callee = some self := by
  cases outside : k.frames.isEmpty with
  | true =>
    rw [grounded_outside outside]
    exact ⟨⟨framed.limits, .push .nil (Nat.zero_le _)⟩, rfl⟩
  | false =>
    rw [grounded_inside outside]
    refine ⟨framed, seats.resolve_left ?_⟩
    simp [outside]

theorem opens_of_prepare {caller : Option Key}
    (prepared : k.prepare caller callee = .ok (module, frame, inside)) :
    frame.caller = caller ∧ frame.callee = callee ∧ inside.frames.current? = some frame ∧
      inside.frames.pop = k.frames := by
  obtain ⟨frames, pushed, rfl⟩ := prepare_ok prepared
  have restored := FrameStack.pop_of_push pushed
  obtain ⟨-, rfl, grown⟩ := FrameStack.frames_of_push pushed
  exact ⟨rfl, rfl, by simp [FrameStack.current?, grown], restored⟩

theorem Framed.enter (framed : k.Framed config) (lower : base.frames <:+ k.frames.frames)
    (prepared : k.prepare (k.frames.current?.map Frame.callee) callee =
      .ok (module, frame, inside)) :
    inside.Activated config base frame callee ∧
      frame.caller = k.frames.current?.map Frame.callee := by
  obtain ⟨called, named, innermost, -⟩ := opens_of_prepare prepared
  obtain ⟨frames, pushed, rfl⟩ := prepare_ok prepared
  obtain ⟨-, -, grown⟩ := FrameStack.frames_of_push pushed
  rw [framed.limits] at pushed
  have fewer := lower.length_le
  refine ⟨⟨⟨framed.limits, framed.stacked.pushed pushed⟩, innermost, named, ?_, ?_⟩, called⟩
  · rw [grown]
    exact lower.trans (List.suffix_cons _ _)
  · simp only [FrameStack.length, grown, List.length_cons]
    omega

theorem suffix_grounded (k : Kernel) (self : Key) :
    k.frames.frames <:+ (k.grounded self).frames.frames := by
  cases outside : k.frames.isEmpty with
  | true =>
    simp only [FrameStack.isEmpty_iff.mp outside, List.nil_suffix]
  | false => simp only [grounded_inside outside, List.suffix_refl]

theorem Framed.call (framed : k.Framed config) (seats : k.Seats self)
    (prepared : (k.grounded self).prepare (some self) callee = .ok (module, frame, inside)) :
    inside.Activated config k.frames frame callee ∧ frame.caller = some self := by
  obtain ⟨grounded, current⟩ := framed.grounded seats
  rw [← current] at prepared
  have entered := grounded.enter (k.suffix_grounded self) prepared
  rwa [current] at entered

end Kernel

/-- A moment of somebody's activity above some frames: a module in control there is the one whose
activity it is, and any other is in control strictly inside. -/
structure Moment.Within (config : Config) (base : FrameStack) (actor : Key) (m : Moment) :
    Prop where
  framed : ∀ now, m.kernel? = some now → now.Framed config
  seated : ∀ now key, m.control? = some (now, key) →
    now.frames.current?.map Frame.callee = some key
  place : ∀ now key, m.control? = some (now, key) →
    now.frames = base ∧ key = actor ∨ now.frames.Above base

namespace Moment

variable {config : Config} {base : FrameStack} {self : Key} {k : Kernel} {m : Moment}

theorem kernel?_of_control? (control : m.control? = some (k, self)) : m.kernel? = some k := by
  cases m <;> simp only [control?, reduceCtorEq] at control <;> (try split at control) <;>
    cases control <;> rfl

theorem control?_of_actor? (shown : m.kernel? = some k) (own : m.actor? = some self) :
    m.control? = if k.frames.isEmpty then none else some (k, self) := by
  cases m <;> cases shown <;> cases own <;> rfl

namespace Within

theorem of_shown (framed : k.Framed config) (shown : m.kernel? = some k)
    (controlled : ∀ now key, m.control? = some (now, key) →
      now = k ∧ k.frames.current?.map Frame.callee = some key ∧
        (k.frames = base ∧ key = self ∨ k.frames.Above base)) : m.Within config base self where
  framed now seen := by
    rw [shown] at seen
    cases seen
    exact framed
  seated now key control := by
    obtain ⟨rfl, seat, -⟩ := controlled now key control
    exact seat
  place now key control := by
    obtain ⟨rfl, -, place⟩ := controlled now key control
    exact place

theorem own (framed : k.Framed config) (seats : k.Seats self) (shown : m.kernel? = some k)
    (acts : m.actor? = some self) : m.Within config k.frames self := by
  refine of_shown framed shown ?_
  intro now key control
  rw [control?_of_actor? shown acts] at control
  split at control
  next => cases control
  next inside =>
    cases control
    exact ⟨rfl, seats.resolve_left inside, .inl ⟨rfl, rfl⟩⟩

theorem uncontrolled (framed : k.Framed config) (shown : m.kernel? = some k)
    (idle : m.control? = none) : m.Within config base self := by
  refine of_shown framed shown ?_
  intro now key control
  rw [idle] at control
  cases control

theorem unshown (hidden : m.kernel? = none) : m.Within config base self where
  framed now shown := by
    rw [hidden] at shown
    cases shown
  seated now key control := by
    rw [kernel?_of_control? control] at hidden
    cases hidden
  place now key control := by
    rw [kernel?_of_control? control] at hidden
    cases hidden

theorem activated {frame : Frame} {callee : Key}
    (activated : k.Activated config base frame callee) (shown : m.kernel? = some k)
    (controlled : m.control? = some (k, frame.callee)) : m.Within config base self := by
  refine of_shown activated.framed shown ?_
  intro now key control
  rw [controlled] at control
  cases control
  exact ⟨rfl, by rw [activated.innermost]; rfl, .inr activated.above⟩

theorem outward {inner : FrameStack} {callee : Key} (within : m.Within config inner callee)
    (above : inner.Above base) : m.Within config base self where
  framed := within.framed
  seated := within.seated
  place now key control := by
    rcases within.place now key control with ⟨rfl, -⟩ | deeper
    · exact .inr above
    · exact .inr (deeper.trans above)

end Within

end Moment

namespace Activity

variable {config : Config} {self : Key} {k last : Kernel} {journal : List Moment}

theorem balanced (activity : Activity self k journal last) :
    last.frames = k.frames ∧ last.config = k.config := by
  induction activity with
  | done => exact ⟨rfl, rfl⟩
  | ask _ ih | note _ ih | refuse _ _ ih | fail _ _ _ ih | block _ _ _ ih => exact ih
  | commit _ _ committed _ ih =>
    obtain ⟨frames, config, -⟩ := Kernel.commit_ok committed
    exact ⟨ih.1.trans frames, ih.2.trans config⟩
  | @call self _ k _ _ _ _ _ _ _ _ _ _ _ prepared _ _ within_ih ih =>
    obtain ⟨frames, -, rfl⟩ := Kernel.prepare_ok prepared
    refine ⟨ih.1, ih.2.trans (within_ih.2.trans ?_)⟩
    rw [Kernel.grounded_eq]

theorem activated {base : FrameStack} {frame : Frame} (activity : Activity self k journal last)
    (activated : k.Activated config base frame self) : last.Activated config base frame self := by
  obtain ⟨same, limits⟩ := activity.balanced
  refine ⟨activated.framed.reframe limits same, ?_, activated.named, ?_⟩
  · rw [same]
    exact activated.innermost
  · rw [same]
    exact activated.above

theorem within (activity : Activity self k journal last) (framed : k.Framed config)
    (seats : k.Seats self) : ∀ m ∈ journal, m.Within config k.frames self := by
  induction activity with
  | done => simp
  | ask _ ih | note _ ih =>
    simp only [List.forall_mem_cons]
    exact ⟨.own framed seats rfl rfl, ih framed seats⟩
  | refuse _ _ ih | fail _ _ _ ih =>
    simp only [List.forall_mem_cons]
    exact ⟨.own framed seats rfl rfl, .own framed seats rfl rfl, ih framed seats⟩
  | block _ _ _ ih =>
    simp only [List.forall_mem_cons]
    exact ⟨.own framed seats rfl rfl, .uncontrolled (framed.grounded seats).1 rfl rfl,
      .own framed seats rfl rfl, ih framed seats⟩
  | @commit self k next last s rest admitted effective committed later ih =>
    obtain ⟨same, limits, -⟩ := Kernel.commit_ok committed
    have framed_next := framed.reframe limits same
    have seats_next : next.Seats self := by
      rw [Kernel.Seats, same]
      exact seats
    have attempted : Moment.Within config k.frames self (.attempted k self s (.ok ())) :=
      .own framed seats rfl rfl
    simp only [List.forall_mem_cons]
    rw [← same] at attempted ⊢
    exact ⟨attempted, .own framed_next seats_next rfl rfl, ih framed_next seats_next⟩
  | @call self target k inside middle last selector payload module frame result body rest
      admitted prepared within later within_ih ih =>
    have entered := (framed.call seats prepared).1
    have leaving := within.activated entered
    have inner := within_ih entered.framed entered.seats
    have framed_after : Kernel.Framed config { middle with frames := k.frames } :=
      ⟨leaving.framed.limits, framed.stacked⟩
    simp only [List.forall_mem_cons, List.forall_mem_append]
    exact ⟨.own framed seats rfl rfl, .activated entered rfl rfl,
      fun m member => (inner m member).outward entered.above, .activated leaving rfl rfl,
      .own (k := { middle with frames := k.frames }) framed_after seats rfl rfl,
      ih framed_after seats⟩

end Activity

theorem Entry.within {config : Config} {k : Kernel} {callee : Key} {selector : Selector}
    {payload : Bytes} {r : Run Outcome} (framed : k.Framed config)
    (entry : Entry k (k.frames.current?.map Frame.callee) callee selector payload r) :
    ∀ m ∈ r.journal, m.Within config k.frames callee := by
  cases entry with
  | blocked => simpa using Moment.Within.uncontrolled framed rfl rfl
  | ran prepared within =>
    have entered := (framed.enter (List.suffix_refl _) prepared).1
    have inner := within.within entered.framed entered.seats
    simp only [List.forall_mem_cons, List.forall_mem_append]
    exact ⟨.activated entered rfl rfl, fun m member => (inner m member).outward entered.above,
      .activated (within.activated entered) rfl rfl, by simp⟩

namespace Kernel

variable {config : Config} {k : Kernel}

theorem framed_idle (limits : k.config = config) (idle : k.frames = .empty) :
    k.Framed config where
  limits := limits
  stacked := by
    rw [idle]
    exact .nil

theorem Started.within {external : Option Key} {r : Run Outcome} (limits : k.config = config)
    (idle : k.frames = .empty) (started : k.Started external r) :
    ∃ actor, ∀ m ∈ r.journal, m.Within config k.frames actor := by
  have framed := framed_idle limits idle
  cases started with
  | dispatch caller s =>
    have seats : k.Seats caller := .inl (by rw [idle]; rfl)
    exact ⟨caller, (k.dispatch_activity caller s).within framed seats⟩
  | invoke target selector payload =>
    rcases k.invoke_entry target selector payload with ⟨-, silent⟩ | ⟨t, -, -, entry⟩
    · refine ⟨.null, ?_⟩
      rw [silent]
      simpa using Moment.Within.unshown rfl
    · have outermost : none = k.frames.current?.map Frame.callee := by
        rw [idle]
        rfl
      rw [outermost] at entry
      exact ⟨t, entry.within framed⟩

end Kernel

end RefMonitor
