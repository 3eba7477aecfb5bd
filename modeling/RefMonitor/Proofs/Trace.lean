import RefMonitor.Kernel.Run

set_option autoImplicit false

namespace RefMonitor

inductive Origin where
  | invocation (target : Key)
  | syscall (caller : Key)

def Origin.caller? : Origin → Option Key
  | .invocation _ => none
  | .syscall caller => some caller

structure Effect where
  frames : FrameStack
  actor : Key
  request : Syscall

namespace Moment

def kernel? : Moment → Option Kernel
  | .attempted k _ _ _ | .settled k _ _ _ | .blocked k _ _ | .entered k _ _ _ | .left k _ _
  | .asked k _ _ _ | .noted k _ _ => some k
  | .registered .. | .appointed .. | .unanswered _ => none

def actor? : Moment → Option Key
  | .attempted _ key _ _ | .settled _ key _ _ | .asked _ key _ _ | .noted _ key _ => some key
  | .registered .. | .appointed .. | .unanswered _ | .blocked .. | .entered .. | .left .. => none

-- A call changes nothing by itself.
def effect? : Moment → Option Effect
  | .settled k caller request (.ok _) =>
    if request.operation = .call then none else some ⟨k.frames, caller, request⟩
  | _ => none

def activation? : Moment → Option Frame
  | .entered _ frame _ _ => some frame
  | _ => none

end Moment

namespace Kernel

-- Who acts in a run above the frames `base`: the callee of the innermost frame, and outside
-- every frame of the run whoever it was started for.
def actor? (base : FrameStack) (origin : Origin) (k : Kernel) : Option Key :=
  if k.frames = base then origin.caller? else k.frames.current?.map Frame.callee

def Admits (base : FrameStack) (origin : Origin) (k : Kernel) : Option Key → Key → Prop
  | none, callee => origin = .invocation callee ∧ k.table.contains callee = true
  | some caller, callee => k.actor? base origin = some caller ∧
      ∃ selector payload, k.verdict caller (.call callee selector payload) = .ok ()

inductive Started (k : Kernel) : Option Key → Run Outcome → Prop where
  | invoke (target : Option Key) (selector : Selector) (payload : Bytes) :
      Started k none (k.invoke target selector payload)
  | dispatch (caller : Key) (s : Syscall) : Started k (some caller) (k.dispatch caller s)

end Kernel

/-- One step of a run with the moments it leaves in the journal. Which step comes next is up to the
code in control, and nothing here restricts that code. -/
inductive Step (base : FrameStack) (origin : Origin) : Kernel → List Moment → Kernel → Prop where
  | watch {k : Kernel} {m : Moment}
      (still : ∀ now, m.kernel? = some now → now = k)
      (own : ∀ key, m.actor? = some key → k.actor? base origin = some key)
      (inert : m.effect? = none) (calm : m.activation? = none) :
      Step base origin k [m] k
  | commit {k next : Kernel} {caller : Key} {s : Syscall}
      (acting : k.actor? base origin = some caller) (admitted : k.verdict caller s = .ok ())
      (effective : s.operation ≠ .call) (committed : k.commit s = .ok next) :
      Step base origin k [.settled next caller s (.ok [])] next
  -- A call from outside any frame runs in a frame of its caller, which leaves no moment.
  | root {k : Kernel} {caller : Key} {frame : Frame} {frames : FrameStack}
      (acting : k.actor? base origin = some caller) (outside : k.frames.isEmpty = true)
      (pushed : k.frames.push none caller k.config.maxCallDepth = .ok (frame, frames)) :
      Step base origin k [] { k with frames }
  | unroot {k : Kernel} {frame : Frame} (outermost : k.frames.frames = [frame]) :
      Step base origin k [] { k with frames := k.frames.pop }
  | enter {k inside : Kernel} {caller : Option Key} {callee : Key} {module : Module}
      {frame : Frame} {selector : Selector} {payload : Bytes}
      (admitted : k.Admits base origin caller callee)
      (prepared : k.prepare caller callee = .ok (module, frame, inside)) :
      Step base origin k [.entered inside frame selector payload] inside
  | leave {k : Kernel} {frame : Frame} {result : ModuleResult}
      (innermost : k.frames.current? = some frame) :
      Step base origin k [.left k frame result] { k with frames := k.frames.pop }

inductive Trace (base : FrameStack) (origin : Origin) : Kernel → List Moment → Kernel → Prop where
  | nil (k : Kernel) : Trace base origin k [] k
  | cons {k middle last : Kernel} {moments rest : List Moment}
      (first : Step base origin k moments middle) (later : Trace base origin middle rest last) :
      Trace base origin k (moments ++ rest) last

namespace Trace

variable {base : FrameStack} {origin : Origin}

theorem single {k next : Kernel} {moments : List Moment} (step : Step base origin k moments next) :
    Trace base origin k moments next := by
  simpa using Trace.cons step (.nil next)

theorem told {k middle last : Kernel} {m : Moment} {rest : List Moment}
    (first : Step base origin k [m] middle) (later : Trace base origin middle rest last) :
    Trace base origin k (m :: rest) last :=
  .cons first later

theorem append {k middle last : Kernel} {first second : List Moment}
    (earlier : Trace base origin k first middle) (later : Trace base origin middle second last) :
    Trace base origin k (first ++ second) last := by
  induction earlier with
  | nil => exact later
  | cons step rest ih =>
    rw [List.append_assoc]
    exact .cons step (ih later)

end Trace

theorem Step.moments_eq {base : FrameStack} {origin : Origin} {k next : Kernel}
    {moments : List Moment} (step : Step base origin k moments next) :
    moments = [] ∨ ∃ m, moments = [m] := by
  cases step with
  | root | unroot => exact .inl rfl
  | watch | commit | enter | leave => exact .inr ⟨_, rfl⟩

theorem Trace.split {base : FrameStack} {origin : Origin} {k last : Kernel}
    {journal : List Moment} (trace : Trace base origin k journal last) {before after : List Moment}
    {m : Moment} (cut : journal = before ++ m :: after) :
    ∃ now next, Trace base origin k before now ∧ Step base origin now [m] next ∧
      Trace base origin next after last := by
  induction trace generalizing before with
  | nil => simp at cut
  | cons step later ih =>
    rcases step.moments_eq with rfl | ⟨first, rfl⟩
    · obtain ⟨now, next, earlier, here, rest⟩ := ih cut
      exact ⟨now, next, .cons step earlier, here, rest⟩
    · cases before with
      | nil =>
        cases cut
        exact ⟨_, _, .nil _, step, later⟩
      | cons head before =>
        injection cut with same tail
        subst same
        obtain ⟨now, next, earlier, here, rest⟩ := ih tail
        exact ⟨now, next, .cons step earlier, here, rest⟩

theorem Step.snapshot {base : FrameStack} {origin : Origin} {k next now : Kernel}
    {moments : List Moment} (step : Step base origin k moments next) {m : Moment}
    (member : m ∈ moments) (seen : m.kernel? = some now) : now = k ∨ now = next := by
  cases step with
  | watch still own inert calm =>
    rw [List.mem_singleton] at member
    exact .inl (still now (member ▸ seen))
  | commit acting admitted effective committed =>
    rw [List.mem_singleton] at member
    subst member
    exact .inr (Option.some.inj seen).symm
  | enter admitted prepared =>
    rw [List.mem_singleton] at member
    subst member
    exact .inr (Option.some.inj seen).symm
  | leave innermost =>
    rw [List.mem_singleton] at member
    subst member
    exact .inl (Option.some.inj seen).symm
  | root acting outside pushed => cases member
  | unroot outermost => cases member

theorem Trace.invariant_told {base : FrameStack} {origin : Origin} {P : Kernel → Prop}
    {told : Moment → Prop}
    (keeps : ∀ {k next : Kernel} {moments : List Moment},
      Step base origin k moments next → (∀ m ∈ moments, told m) → P k → P next)
    {k last : Kernel} {journal : List Moment} (trace : Trace base origin k journal last)
    (tells : ∀ m ∈ journal, told m) (start : P k) :
    P last ∧ ∀ m ∈ journal, ∀ now, m.kernel? = some now → P now := by
  induction trace with
  | nil => exact ⟨start, by simp⟩
  | cons step later ih =>
    rw [List.forall_mem_append] at tells
    have middle := keeps step tells.1 start
    obtain ⟨finish, moments⟩ := ih tells.2 middle
    refine ⟨finish, ?_⟩
    intro m member now seen
    rcases List.mem_append.mp member with early | late
    · rcases step.snapshot early seen with rfl | rfl
      · exact start
      · exact middle
    · exact moments m late now seen

theorem Trace.invariant {base : FrameStack} {origin : Origin} {P : Kernel → Prop}
    (keeps : ∀ {k next : Kernel} {moments : List Moment},
      Step base origin k moments next → P k → P next)
    {k last : Kernel} {journal : List Moment} (trace : Trace base origin k journal last)
    (start : P k) :
    P last ∧ ∀ m ∈ journal, ∀ now, m.kernel? = some now → P now :=
  trace.invariant_told (fun step _ => keeps step) (fun _ _ => trivial) start

variable {base : FrameStack} {origin : Origin}

def Run.Traced {α : Type} (base : FrameStack) (origin : Origin) (k : Kernel) (r : Run α) : Prop :=
  Trace base origin k r.journal r.kernel

def Enter.Traced (base : FrameStack) (origin : Origin) (enter : Enter) : Prop :=
  ∀ k caller callee selector payload r, base.length ≤ k.frames.length →
    k.Admits base origin caller callee →
    enter k caller callee selector payload = some r → r.Traced base origin k

theorem Kernel.actor?_congr {k other : Kernel} (same : other.frames = k.frames) :
    other.actor? base origin = k.actor? base origin := by
  rw [Kernel.actor?, Kernel.actor?, same]

theorem Kernel.actor?_of_push {k : Kernel} {caller : Option Key} {callee : Key} {frame : Frame}
    {frames : FrameStack} (deep : base.length ≤ k.frames.length)
    (pushed : k.frames.push caller callee k.config.maxCallDepth = .ok (frame, frames)) :
    { k with frames := frames }.actor? base origin = some callee := by
  obtain ⟨-, rfl, grown⟩ := FrameStack.frames_of_push pushed
  have length := FrameStack.length_of_push pushed
  have above : frames ≠ base := by
    rintro rfl
    omega
  simp [Kernel.actor?, above, FrameStack.current?, grown]

theorem Step.watch_own {k : Kernel} {self : Key} (acting : k.actor? base origin = some self)
    {m : Moment} (seen : m.kernel? = some k) (own : m.actor? = some self) (inert : m.effect? = none)
    (calm : m.activation? = none) : Step base origin k [m] k := by
  refine .watch ?_ ?_ inert calm
  · intro now same
    rw [seen] at same
    exact (Option.some.inj same).symm
  · intro key same
    rw [own] at same
    exact same ▸ acting

theorem Step.watch_unowned {k : Kernel} {m : Moment}
    (still : ∀ now, m.kernel? = some now → now = k) (unowned : m.actor? = none)
    (inert : m.effect? = none) (calm : m.activation? = none) : Step base origin k [m] k := by
  refine .watch still ?_ inert calm
  intro key same
  rw [unowned] at same
  cases same

theorem Program.run_traced {perform : Kernel → Key → Syscall → Option (Run Outcome)} {self : Key}
    (start : FrameStack)
    (balanced : ∀ k caller s r, perform k caller s = some r → r.Balanced k)
    (traced : ∀ k s r, k.frames = start → perform k self s = some r → r.Traced base origin k)
    (acting : ∀ k : Kernel, k.frames = start → k.actor? base origin = some self)
    {program : Program} {k : Kernel} {r : Run ModuleResult} (here : k.frames = start)
    (h : program.run perform self k = some r) : r.Traced base origin k := by
  induction program generalizing k r with
  | done result =>
    cases h
    exact .nil k
  | ask query next ih =>
    obtain ⟨inner, run, rfl⟩ := Option.map_eq_some_iff.mp h
    exact .cons (.watch_own (acting k here) rfl rfl rfl rfl) (ih _ here run)
  | note remark next ih =>
    obtain ⟨inner, run, rfl⟩ := Option.map_eq_some_iff.mp h
    exact .cons (.watch_own (acting k here) rfl rfl rfl rfl) (ih here run)
  | syscall request next ih =>
    unfold Program.run at h
    split at h
    next => cases h
    next first performed =>
      obtain ⟨inner, run, rfl⟩ := Option.map_eq_some_iff.mp h
      have same := (balanced _ _ _ _ performed).1
      exact (traced _ _ _ here performed).append (ih _ (same.trans here) run)

namespace Kernel

theorem Calls.traced {enter : Enter} (traced : enter.Traced base origin)
    (balanced : enter.Balanced) {k : Kernel} {caller target : Key} {selector : Selector}
    {payload : Bytes} {r : Run Outcome} (deep : base.length ≤ k.frames.length)
    (acting : k.actor? base origin = some caller)
    (admitted : k.verdict caller (.call target selector payload) = .ok ())
    (calls : Calls enter k caller target selector payload r) : r.Traced base origin k := by
  cases calls with
  | full => exact .nil k
  | nested inside run =>
    have permitted : k.Admits base origin (some caller) target :=
      ⟨acting, selector, payload, admitted⟩
    exact traced _ _ _ _ _ _ deep permitted run
  | @root frame frames inner outside pushed run =>
    have length := FrameStack.length_of_push pushed
    have deeper : base.length ≤ { k with frames := frames }.frames.length := by
      simp only [length]
      omega
    have permitted : { k with frames := frames }.Admits base origin (some caller) target :=
      ⟨actor?_of_push deep pushed, selector, payload, admitted⟩
    have inside := traced _ _ _ _ _ _ deeper permitted run
    have closes : inner.kernel.frames.frames = [frame] := by
      rw [(balanced _ _ _ _ _ _ run).1, (FrameStack.frames_of_push pushed).2.2,
        FrameStack.isEmpty_iff.mp outside]
    have body := inside.append (.single (.unroot closes))
    rw [List.append_nil] at body
    exact .cons (.root acting outside pushed) body

theorem dispatchWith_traced {enter : Enter} (traced : enter.Traced base origin)
    (balanced : enter.Balanced) {k : Kernel} {caller : Key} {s : Syscall} {r : Run Outcome}
    (deep : base.length ≤ k.frames.length) (acting : k.actor? base origin = some caller)
    (h : k.dispatchWith enter caller s = some r) : r.Traced base origin k := by
  have same := (dispatchWith_balanced balanced h).1
  obtain ⟨inner, performs, rfl⟩ := performs_of_dispatchWith h
  have finish : inner.kernel.actor? base origin = some caller := by
    rw [actor?_congr same]
    exact acting
  refine Trace.told (.watch_own acting rfl rfl rfl rfl) ?_
  cases performs with
  | refused | failed => exact .single (.watch_own acting rfl rfl rfl rfl)
  | committed admitted effective committed =>
    exact .single (.commit acting admitted effective committed)
  | called admitted calls =>
    have called := calls.traced traced balanced deep acting admitted
    refine called.append (.single (.watch_own finish rfl rfl ?_ rfl))
    cases inner.value <;> rfl

theorem enterWithin_traced (budget : Nat) : (enterWithin budget).Traced base origin := by
  induction budget with
  | zero =>
    intro k caller callee selector payload r deep admitted h
    cases h
  | succ budget ih =>
    intro k caller callee selector payload r deep admitted h
    cases enters_of_enterWithin h with
    | blocked =>
      refine .single (.watch_unowned ?_ rfl rfl rfl)
      intro now same
      exact (Option.some.inj same).symm
    | @ran module frame inside inner prepared run =>
      have entering : Step base origin k [.entered inside frame selector payload] inside :=
        .enter admitted prepared
      obtain ⟨frames, pushed, rfl⟩ := prepare_ok prepared
      have grown := FrameStack.length_of_push pushed
      have balanced : ∀ (now : Kernel) (caller : Key) (s : Syscall) (r : Run Outcome),
          now.dispatchWith (enterWithin budget) caller s = some r → r.Balanced now :=
        fun _ _ _ _ => dispatchWith_balanced (enterWithin_balanced budget)
      have acting : ∀ now : Kernel, now.frames = frames →
          now.actor? base origin = some callee := by
        intro now same
        rw [← actor?_of_push deep pushed]
        exact actor?_congr same
      have inner_traced : ∀ (now : Kernel) (s : Syscall) (r : Run Outcome),
          now.frames = frames → now.dispatchWith (enterWithin budget) callee s = some r →
          r.Traced base origin now := by
        intro now s r same run
        refine dispatchWith_traced ih (enterWithin_balanced budget) ?_ (acting now same) run
        rw [same]
        omega
      have body := Program.run_traced frames balanced inner_traced acting rfl run
      have finish := (Program.run_balanced balanced run).1
      have innermost : inner.kernel.frames.current? = some frame := by
        rw [finish]
        simp [FrameStack.current?, (FrameStack.frames_of_push pushed).2.2]
      exact Trace.told entering (body.append (.single (.leave innermost)))

theorem invoke_traced {k : Kernel} {target : Option Key} {selector : Selector} {payload : Bytes}
    (answers : ∀ t, target.or k.entry = some t → origin = .invocation t) :
    (k.invoke target selector payload).Traced k.frames origin k := by
  have unanswered (t : Option Key) : Trace k.frames origin k [.unanswered t] k := by
    refine .single (.watch_unowned ?_ rfl rfl rfl)
    intro now same
    cases same
  have invokes := invokes_of_invokeWith (invokeWith_budget k target selector payload)
  generalize k.invoke target selector payload = r at invokes
  cases invokes with
  | nobody => exact unanswered none
  | absent => exact unanswered (some _)
  | @entered t _ chosen live run =>
    have admitted : k.Admits k.frames origin none t := ⟨answers t chosen, live⟩
    exact enterWithin_traced _ _ _ _ _ _ _ (Nat.le_refl _) admitted run

theorem dispatch_traced (k : Kernel) (caller : Key) (s : Syscall) :
    (k.dispatch caller s).Traced k.frames (.syscall caller) k := by
  have acting : k.actor? k.frames (.syscall caller) = some caller := by
    simp [actor?, Origin.caller?]
  exact dispatchWith_traced (enterWithin_traced _) (enterWithin_balanced _) (Nat.le_refl _) acting
    (dispatchWith_budget k caller s)

theorem Started.traced {k : Kernel} {external : Option Key} {r : Run Outcome}
    (started : k.Started external r) :
    ∃ origin : Origin, origin.caller? = external ∧ r.Traced k.frames origin k := by
  cases started with
  | dispatch caller s => exact ⟨.syscall caller, rfl, dispatch_traced k caller s⟩
  | invoke target selector payload =>
    refine ⟨.invocation ((target.or k.entry).getD .null), rfl, invoke_traced ?_⟩
    intro t chosen
    rw [chosen]
    rfl

end Kernel

end RefMonitor
