import RefMonitor.Proofs.Fidelity
import RefMonitor.Proofs.FrameOrder

set_option autoImplicit false

namespace RefMonitor

-- Wherever a module has control at a moment of a call from outside, the frame of the caller is
-- the outermost one and the frame of the callee is right inside it.
def Moment.Called (caller callee : Key) (m : Moment) : Prop :=
  ∀ now key, m.control? = some (now, key) → now.frames.Disciplined ∧
    [⟨none, caller, 0⟩, ⟨some caller, callee, 1⟩] <+: now.frames.outermostFirst

theorem Program.perform_forward (self : Key) (s : Syscall) (k : Kernel) :
    (forward s).perform self k =
      { k.dispatch self s with value := (k.dispatch self s).value.mapError Failure.code } := by
  simp [forward, perform, Run.after]

namespace Moment

variable {config : Config} {base : FrameStack} {actor caller callee key : Key} {m : Moment}
  {now : Kernel}

theorem Within.suffix (within : m.Within config base actor)
    (control : m.control? = some (now, key)) : base.frames <:+ now.frames.frames := by
  rcases within.place now key control with ⟨rfl, -⟩ | above
  · exact List.suffix_refl _
  · exact above.1

theorem Within.called (within : m.Within config base actor)
    (frames : base.frames = [⟨some caller, callee, 1⟩, ⟨none, caller, 0⟩]) :
    m.Called caller callee := by
  intro now key control
  have framed := within.framed now (kernel?_of_control? control)
  have suffix := within.suffix control
  rw [frames] at suffix
  exact ⟨framed.stacked.disciplined, List.reverse_prefix.mpr suffix⟩

end Moment

namespace Kernel

variable {config : Config} {base : FrameStack} {k now inside last : Kernel}
  {caller callee target : Key} {module : Module} {frame : Frame} {selector : Selector}
  {payload : Bytes} {body : List Moment} {result : ModuleResult}

theorem Activated.within (activated : k.Activated config base frame callee) {m : Moment}
    (shown : m.kernel? = some k) (control : m.control? = some (k, frame.callee)) :
    m.Within config k.frames callee := by
  refine .of_shown activated.framed shown ?_
  intro now key same
  rw [control] at same
  cases same
  refine ⟨rfl, ?_, .inl ⟨rfl, activated.named⟩⟩
  rw [activated.innermost]
  rfl

theorem Activated.stay (activated : inside.Activated config base frame callee)
    (activity : Activity callee inside body last) :
    ∀ m ∈ .entered inside frame selector payload :: (body ++ [.left last frame result]),
      m.Within config inside.frames callee := by
  have entering : Moment.Within config inside.frames callee
      (.entered inside frame selector payload) := activated.within rfl rfl
  have leaving : Moment.Within config last.frames callee (.left last frame result) :=
    (activity.activated activated).within rfl rfl
  rw [activity.balanced.1] at leaving
  simp only [List.forall_mem_cons, List.forall_mem_append]
  exact ⟨entering, activity.within activated.framed activated.seats, leaving, by simp⟩

theorem frames_of_prepare_outside (outside : k.frames.isEmpty = true)
    (prepared : (k.grounded caller).prepare (some caller) callee = .ok (module, frame, inside)) :
    inside.frames.frames = [⟨some caller, callee, 1⟩, ⟨none, caller, 0⟩] := by
  obtain ⟨frames, pushed, rfl⟩ := prepare_ok prepared
  rw [grounded_outside outside] at pushed
  obtain ⟨-, rfl, grown⟩ := FrameStack.frames_of_push pushed
  exact grown

theorem called_of_prepared (outside : k.frames.isEmpty = true)
    (prepared : (k.grounded caller).prepare (some caller) callee = .ok (module, frame, inside))
    (activity : Activity callee inside body last) :
    ∀ m ∈ .entered inside frame selector payload :: (body ++ [.left last frame result]),
      m.Called caller callee := by
  have framed : k.Framed k.config := by
    refine ⟨rfl, ?_⟩
    rw [FrameStack.isEmpty_iff.mp outside]
    exact .nil
  have entered := (framed.call (.inl outside) prepared).1
  intro m member
  exact (entered.stay activity m member).called (frames_of_prepare_outside outside prepared)

section

variable (alike : now.grounded caller = k.grounded caller)
include alike

theorem verdict_of_grounded (s : Syscall) : now.verdict caller s = k.verdict caller s := by
  rw [← verdict_grounded now, alike, verdict_grounded]

theorem restored_of_grounded : { k.grounded caller with frames := now.frames } = now := by
  rw [← alike]
  exact now.grounded_restored caller

end

theorem dispatch_of_alike (outside : k.frames.isEmpty = true) (caller target : Key)
    (selector : Selector) (payload : Bytes) :
    let s := Syscall.call target selector payload
    ∃ (outcome : Outcome) (after : Kernel) (within : List Moment),
      (∀ m ∈ within, m.Called caller target) ∧
      ∀ now : Kernel, now.grounded caller = k.grounded caller →
        now.dispatch caller s = ⟨outcome, { after with frames := now.frames },
          .attempted now caller s (k.verdict caller s) :: (within ++
            [.settled { after with frames := now.frames } caller s outcome])⟩ := by
  dsimp only
  cases verdict : k.verdict caller (.call target selector payload) with
  | error refusal =>
    refine ⟨.error (.rejected .call refusal.rejection), k.grounded caller, [], by simp, ?_⟩
    intro now alike
    rw [restored_of_grounded alike]
    exact dispatch_of_refused ((verdict_of_grounded alike _).trans verdict)
  | ok =>
    cases prepared : (k.grounded caller).prepare (some caller) target with
    | error obstacle =>
      refine ⟨.error (.rejected .call obstacle.rejection), k.grounded caller,
        [.blocked (k.grounded caller) target obstacle], ?_, ?_⟩
      · simp [Moment.Called, Moment.control?]
      · intro now alike
        rw [restored_of_grounded alike, ← alike]
        rw [← alike] at prepared
        exact dispatch_of_blocked ((verdict_of_grounded alike _).trans verdict) prepared
    | ok ready =>
      obtain ⟨module, frame, inside⟩ := ready
      let body := (module selector payload).perform target inside
      refine ⟨body.value.outcome, body.kernel, .entered inside frame selector payload ::
        (body.journal ++ [.left body.kernel frame body.value]), ?_, ?_⟩
      · exact called_of_prepared outside prepared (Program.perform_activity _ _ _)
      · intro now alike
        rw [← alike] at prepared
        rw [dispatch_of_prepared ((verdict_of_grounded alike _).trans verdict) prepared]
        simp [body]

theorem prepare_outside (outside : k.frames.isEmpty = true) {location : Location}
    (located : k.resolve? caller = some location) (code : k.host.module? location = some module) :
    k.prepare none caller = .ok (module, ⟨none, caller, 0⟩, k.grounded caller) := by
  simp only [prepare, located, code, FrameStack.push_of_isEmpty outside, grounded_outside outside]

theorem outcome_of_handed_on (k : Kernel) (self : Key) (s : Syscall) :
    ModuleResult.outcome ((k.dispatch self s).value.mapError Failure.code) =
      (k.dispatch self s).value.mapError fun f => .reverted f.code := by
  cases outcome : (k.dispatch self s).value with
  | ok => rfl
  | error f =>
    have kept : f.code.asFailure = f.code := ResultCode.asFailure_of_ne (dispatch_tells outcome)
    exact congrArg (fun code => Except.error (Failure.reverted code)) kept

theorem invoke_of_forward {target? : Option Key} {location : Location} {s : Syscall}
    (outside : k.frames.isEmpty = true) (located : k.resolve? caller = some location)
    (code : k.host.module? location = some module)
    (forwards : module selector payload = .forward s)
    (chosen : target?.or k.entry = some caller) :
    let r := (k.grounded caller).dispatch caller s
    k.invoke target? selector payload =
      ⟨r.value.mapError fun f => .reverted f.code, { r.kernel with frames := k.frames },
        .entered (k.grounded caller) ⟨none, caller, 0⟩ selector payload :: (r.journal ++
          [.left r.kernel ⟨none, caller, 0⟩ (r.value.mapError Failure.code)])⟩ := by
  have prepared := prepare_outside outside located code
  rw [invoke_of_prepared chosen (contains_of_prepare prepared) prepared, forwards]
  simp only [Program.perform_forward, outcome_of_handed_on]

/-- A procedure that does nothing but forward a call may as well make the call from outside. -/
theorem forwarded_call_is_direct {target? : Option Key} {location : Location} {inner : Selector}
    {data : Bytes} (idle : k.frames = .empty) (located : k.resolve? caller = some location)
    (code : k.host.module? location = some module)
    (forwards : module selector payload = .forward (.call target inner data))
    (chosen : target?.or k.entry = some caller) :
    let s := Syscall.call target inner data
    let direct := k.dispatch caller s
    let forwarded := k.invoke target? selector payload
    forwarded.kernel = direct.kernel ∧ direct.kernel.frames = .empty ∧
    (∀ reply, forwarded.value = .ok reply ↔ direct.value = .ok reply) ∧
    Outcome.code forwarded.value = Outcome.code direct.value ∧
    ∃ within : List Moment, (∀ m ∈ within, m.Called caller target) ∧
      direct.journal = .attempted k caller s (k.verdict caller s) ::
        (within ++ [.settled direct.kernel caller s direct.value]) ∧
      forwarded.journal = .entered (k.grounded caller) ⟨none, caller, 0⟩ selector payload ::
        .attempted (k.grounded caller) caller s (k.verdict caller s) ::
        (within ++ [.settled (direct.kernel.grounded caller) caller s direct.value,
          .left (direct.kernel.grounded caller) ⟨none, caller, 0⟩
            (direct.value.mapError Failure.code)]) := by
  have outside : k.frames.isEmpty = true := by
    rw [idle]
    rfl
  obtain ⟨outcome, after, within, called, goes⟩ :=
    k.dispatch_of_alike outside caller target inner data
  have grounded : { after with frames := k.frames }.grounded caller =
      { after with frames := (k.grounded caller).frames } := by
    rw [grounded_outside outside, grounded_outside]
    exact outside
  have forwarded := invoke_of_forward outside located code forwards chosen
  dsimp only at forwarded ⊢
  rw [forwarded, goes k rfl, goes _ (grounded_grounded k caller), grounded]
  refine ⟨rfl, idle, ?_, ?_, within, called, rfl, by simp⟩
  · intro reply
    cases outcome with
    | ok => rfl
    | error => exact iff_of_false nofun nofun
  · cases outcome <;> rfl

def outpost : Kernel := { relay with config := { maxCallDepth := 1 } }

theorem forwarded_call_is_direct_outpost :
    outpost.frames = .empty ∧ outpost.resolve? herald = some (.ofUInt64 1) ∧
    outpost.host.module? (.ofUInt64 1) = some (passTo runner) ∧
    passTo runner ⟨0⟩ [] = .forward (.call runner ⟨0⟩ []) ∧
    (outpost.dispatch herald (.call runner ⟨0⟩ [])).activations = [⟨some herald, runner, 1⟩] ∧
    (outpost.invoke none ⟨0⟩ []).kernel =
      (outpost.dispatch herald (.call runner ⟨0⟩ [])).kernel ∧
    Outcome.code (outpost.invoke none ⟨0⟩ []).value =
      Outcome.code (outpost.dispatch herald (.call runner ⟨0⟩ [])).value := by
  have located : outpost.resolve? herald = some (.ofUInt64 1) := rfl
  have code : outpost.host.module? (.ofUInt64 1) = some (passTo runner) := rfl
  have forwards : passTo runner ⟨0⟩ [] = .forward (.call runner ⟨0⟩ []) := rfl
  have chosen : Option.or none outpost.entry = some herald := rfl
  obtain ⟨kernel, -, -, same, -⟩ := forwarded_call_is_direct rfl located code forwards chosen
  exact ⟨rfl, located, code, forwards, rfl, kernel, same⟩

end Kernel

end RefMonitor
