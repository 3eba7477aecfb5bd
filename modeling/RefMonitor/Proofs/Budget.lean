import RefMonitor.Kernel.Run

set_option autoImplicit false

namespace RefMonitor

def Enter.Within (enter wider : Enter) : Prop :=
  ∀ k caller callee selector payload r,
    enter k caller callee selector payload = some r →
      wider k caller callee selector payload = some r

theorem Program.run_within {perform wider : Kernel → Key → Syscall → Option (Run Outcome)}
    {self : Key}
    (within : ∀ {k : Kernel} {s : Syscall} {r : Run Outcome}, perform k self s = some r →
      wider k self s = some r)
    {program : Program} {k : Kernel} {r : Run ModuleResult}
    (h : program.run perform self k = some r) : program.run wider self k = some r := by
  induction program generalizing k r with
  | done result => exact h
  | ask query next ih =>
    obtain ⟨inner, run, rfl⟩ := Option.map_eq_some_iff.mp h
    simp [Program.run, ih _ run]
  | note remark next ih =>
    obtain ⟨inner, run, rfl⟩ := Option.map_eq_some_iff.mp h
    simp [Program.run, ih run]
  | syscall request next ih =>
    unfold Program.run at h ⊢
    split at h
    next => cases h
    next first performed =>
      obtain ⟨inner, run, rfl⟩ := Option.map_eq_some_iff.mp h
      simp [within performed, ih _ run]

namespace Kernel

theorem callWith_within {enter wider : Enter} (within : enter.Within wider) {k : Kernel}
    {caller target : Key} {selector : Selector} {payload : Bytes} {r : Run Outcome}
    (h : k.callWith enter caller target selector payload = some r) :
    k.callWith wider caller target selector payload = some r := by
  unfold callWith at h ⊢
  by_cases outside : k.frames.isEmpty = true
  · rw [if_pos outside] at h ⊢
    split at h
    next => exact h
    next =>
      obtain ⟨inner, run, rfl⟩ := Option.map_eq_some_iff.mp h
      rw [within _ _ _ _ _ _ run]
      rfl
  · rw [if_neg outside] at h ⊢
    exact within _ _ _ _ _ _ h

theorem dispatchWith_within {enter wider : Enter} (within : enter.Within wider) {k : Kernel}
    {caller : Key} {s : Syscall} {r : Run Outcome} (h : k.dispatchWith enter caller s = some r) :
    k.dispatchWith wider caller s = some r := by
  obtain ⟨inner, performed, rfl⟩ := Option.map_eq_some_iff.mp h
  suffices k.performWith wider caller s = some inner by simp [dispatchWith, this]
  unfold performWith at performed ⊢
  split at performed
  next => exact performed
  next =>
    split at performed
    next target selector payload => exact callWith_within within performed
    next => exact performed

theorem invokeWith_within {enter wider : Enter} (within : enter.Within wider) {k : Kernel}
    {target : Option Key} {selector : Selector} {payload : Bytes} {r : Run Outcome}
    (h : k.invokeWith enter target selector payload = some r) :
    k.invokeWith wider target selector payload = some r := by
  unfold invokeWith at h ⊢
  split at h
  next => exact h
  next t _ =>
    by_cases live : k.table.contains t = true
    · rw [if_pos live] at h ⊢
      exact within _ _ _ _ _ _ h
    · rw [if_neg live] at h ⊢
      exact h

theorem enterWithin_within (budget more : Nat) :
    (enterWithin budget).Within (enterWithin (budget + more)) := by
  induction budget with
  | zero =>
    intro k caller callee selector payload r h
    cases h
  | succ budget ih =>
    intro k caller callee selector payload r h
    rw [Nat.add_right_comm]
    unfold enterWithin at h ⊢
    split at h
    next => exact h
    next =>
      obtain ⟨inner, run, rfl⟩ := Option.map_eq_some_iff.mp h
      simp [Program.run_within (dispatchWith_within ih) run]

theorem dispatch_of_dispatchWith {budget : Nat} {k : Kernel} {caller : Key} {s : Syscall}
    {r : Run Outcome} (h : k.dispatchWith (enterWithin budget) caller s = some r) :
    k.dispatch caller s = r := by
  have wide := dispatchWith_within (enterWithin_within budget k.budget) h
  have own := dispatchWith_within (enterWithin_within k.budget budget)
    (dispatchWith_budget k caller s)
  rw [Nat.add_comm] at own
  exact Option.some.inj (own.symm.trans wide)

end Kernel

def Program.perform (self : Key) : Program → Kernel → Run ModuleResult
  | .done result, k => ⟨result, k, []⟩
  | .ask query next, k =>
    ((next (k.answer self query)).perform self k).after [.asked k self query (k.answer self query)]
  | .note remark next, k => (next.perform self k).after [.noted k self remark]
  | .syscall request next, k =>
    let r := k.dispatch self request
    ((next r.value).perform self r.kernel).after r.journal

theorem Program.perform_of_run {budget : Nat} {self : Key} {program : Program} {k : Kernel}
    {r : Run ModuleResult}
    (h : program.run (Kernel.dispatchWith (Kernel.enterWithin budget)) self k = some r) :
    program.perform self k = r := by
  induction program generalizing k r with
  | done result =>
    cases h
    rfl
  | ask query next ih =>
    obtain ⟨inner, run, rfl⟩ := Option.map_eq_some_iff.mp h
    rw [perform, ih _ run]
  | note remark next ih =>
    obtain ⟨inner, run, rfl⟩ := Option.map_eq_some_iff.mp h
    rw [perform, ih run]
  | syscall request next ih =>
    unfold Program.run at h
    split at h
    next => cases h
    next first performed =>
      obtain ⟨inner, run, rfl⟩ := Option.map_eq_some_iff.mp h
      rw [perform, Kernel.dispatch_of_dispatchWith performed, ih _ run]

namespace Kernel

variable {k : Kernel}

theorem dispatch_of_refused {caller : Key} {s : Syscall} {refusal : Refusal}
    (refused : k.verdict caller s = .error refusal) : k.dispatch caller s =
      ⟨.error (.rejected s.operation refusal.rejection), k, [.attempted k caller s (.error refusal),
        .settled k caller s (.error (.rejected s.operation refusal.rejection))]⟩ := by
  apply Option.some.inj
  rw [← dispatchWith_budget]
  simp [dispatchWith, performWith, refused]

theorem dispatch_of_committed {next : Kernel} {caller : Key} {s : Syscall}
    (admitted : k.verdict caller s = .ok ()) (effective : s.operation ≠ .call)
    (committed : k.commit s = .ok next) : k.dispatch caller s =
      ⟨.ok [], next, [.attempted k caller s (.ok ()), .settled next caller s (.ok [])]⟩ := by
  apply Option.some.inj
  rw [← dispatchWith_budget]
  cases s with
  | call => exact absurd rfl effective
  | write | log | delete | setEntry | register =>
    simp [dispatchWith, performWith, admitted, committed]

section

variable {target : Option Key} {t : Key} (chosen : target.or k.entry = some t)
include chosen

theorem invoke_of_absent (absent : k.table.contains t = false) (selector : Selector)
    (payload : Bytes) : k.invoke target selector payload =
      ⟨.error (.rejected .call .notFound), k, [.unanswered (some t)]⟩ := by
  apply Option.some.inj
  rw [← invokeWith_budget, invokeWith, chosen]
  simp [absent]

variable (live : k.table.contains t = true)
include live

theorem invoke_of_blocked {obstacle : Obstacle} (blocked : k.prepare none t = .error obstacle)
    (selector : Selector) (payload : Bytes) : k.invoke target selector payload =
      ⟨.error (.rejected .call obstacle.rejection), k, [.blocked k t obstacle]⟩ := by
  apply Option.some.inj
  rw [← invokeWith_budget, invokeWith, chosen]
  simp [live, budget, enterWithin, blocked]

theorem invoke_of_prepared {module : Module} {frame : Frame} {inside : Kernel}
    (prepared : k.prepare none t = .ok (module, frame, inside)) (selector : Selector)
    (payload : Bytes) :
    let body := (module selector payload).perform t inside
    k.invoke target selector payload =
      ⟨body.value.outcome, { body.kernel with frames := k.frames },
        .entered inside frame selector payload ::
          (body.journal ++ [.left body.kernel frame body.value])⟩ := by
  have run := invokeWith_budget k target selector payload
  have same := (invokeWith_balanced (enterWithin_balanced _) run).1
  simp only [invokeWith, chosen, live, if_true] at run
  generalize k.invoke target selector payload = r at run same
  cases enters_of_enterWithin run with
  | blocked blocked =>
    rw [prepared] at blocked
    cases blocked
  | ran ready inner =>
    rw [prepared] at ready
    cases ready
    rw [Program.perform_of_run inner]
    exact congrArg (Run.mk _ · _) (by rw [← same])

end

end Kernel

end RefMonitor
