import RefMonitor.Proofs.Trace

set_option autoImplicit false

namespace RefMonitor

def Run.activations {α : Type} (r : Run α) : List Frame := r.journal.filterMap Moment.activation?

def Run.Clean (k : Kernel) (r : Run Outcome) : Prop :=
  ∀ op kind, r.value = .error (.rejected op kind) → r.kernel = k ∧ r.activations = []

def Enter.Clean (enter : Enter) : Prop :=
  ∀ k caller callee selector payload r,
    enter k caller callee selector payload = some r → r.Clean k

theorem ModuleResult.outcome_ne_rejected (result : ModuleResult) (op : Operation)
    (kind : Rejection) : result.outcome ≠ .error (.rejected op kind) := by
  intro same
  cases result with
  | ok data => cases same
  | error code => cases same

namespace Kernel

theorem enterWithin_clean (budget : Nat) : (enterWithin budget).Clean := by
  intro k caller callee selector payload r h op kind rejected
  cases budget with
  | zero => cases h
  | succ budget =>
    cases enters_of_enterWithin h with
    | blocked => exact ⟨rfl, rfl⟩
    | ran => exact absurd rejected (ModuleResult.outcome_ne_rejected _ op kind)

theorem Calls.clean {enter : Enter} (clean : enter.Clean) {k : Kernel} {caller target : Key}
    {selector : Selector} {payload : Bytes} {r : Run Outcome}
    (calls : Calls enter k caller target selector payload r) : r.Clean k := by
  intro op kind rejected
  cases calls with
  | full => exact ⟨rfl, rfl⟩
  | nested inside run => exact clean _ _ _ _ _ _ run op kind rejected
  | root outside pushed run =>
    obtain ⟨same, idle⟩ := clean _ _ _ _ _ _ run op kind rejected
    have restored := FrameStack.pop_of_push pushed
    refine ⟨?_, idle⟩
    simp only [same, restored]

theorem Performs.clean {enter : Enter} (clean : enter.Clean) {k : Kernel} {caller : Key}
    {s : Syscall} {r : Run Outcome} (performs : Performs enter k caller s r) : r.Clean k := by
  intro op kind rejected
  cases performs with
  | refused | failed => exact ⟨rfl, rfl⟩
  | called admitted calls => exact calls.clean clean op kind rejected
  | committed => cases rejected

theorem dispatchWith_clean {enter : Enter} (clean : enter.Clean) {k : Kernel} {caller : Key}
    {s : Syscall} {r : Run Outcome} (h : k.dispatchWith enter caller s = some r) : r.Clean k := by
  intro op kind rejected
  obtain ⟨inner, performs, rfl⟩ := performs_of_dispatchWith h
  obtain ⟨same, idle⟩ := performs.clean clean op kind rejected
  have settled : (inner.journal ++ [Moment.settled inner.kernel caller s inner.value]).filterMap
      Moment.activation? = [] := by
    rw [List.filterMap_append, show inner.journal.filterMap _ = [] from idle]
    rfl
  exact ⟨same, settled⟩

theorem invokeWith_clean {enter : Enter} (clean : enter.Clean) {k : Kernel} {target : Option Key}
    {selector : Selector} {payload : Bytes} {r : Run Outcome}
    (h : k.invokeWith enter target selector payload = some r) : r.Clean k := by
  cases invokes_of_invokeWith h with
  | nobody | absent => exact fun _ _ _ => ⟨rfl, rfl⟩
  | entered chosen live run => exact clean _ _ _ _ _ _ run

theorem rejection_changes_nothing (k : Kernel) (op : Operation) (kind : Rejection) :
    (∀ (caller : Key) (s : Syscall), (k.dispatch caller s).value = .error (.rejected op kind) →
      (k.dispatch caller s).kernel = k ∧ (k.dispatch caller s).activations = []) ∧
    (∀ (target : Option Key) (selector : Selector) (payload : Bytes),
      (k.invoke target selector payload).value = .error (.rejected op kind) →
      (k.invoke target selector payload).kernel = k ∧
        (k.invoke target selector payload).activations = []) := by
  have clean := enterWithin_clean k.budget
  constructor
  · intro caller s rejected
    exact dispatchWith_clean clean (dispatchWith_budget k caller s) op kind rejected
  · intro target selector payload rejected
    exact invokeWith_clean clean (invokeWith_budget k target selector payload) op kind rejected

def echo : Key := ⟨[101], by simp, by simp⟩

def cramped : Kernel where
  table := ⟨[⟨echo, 1, .ofUInt64 7, .ofList [.call []]⟩], Std.ExtTreeMap.empty.insert echo 0⟩
  entry := some echo
  frames := .empty
  config := { maxCallDepth := 0 }
  host := Host.empty.install (.ofUInt64 7) fun selector payload =>
    .syscall (.call echo selector payload) fun outcome => .done (outcome.mapError Failure.code)

-- The frame around the caller fits and that of the callee does not.
theorem rejection_changes_nothing_cramped :
    (cramped.dispatch echo (.call echo ⟨0⟩ [])).value =
      .error (.rejected .call .callDepthExceeded) ∧
    (cramped.dispatch echo (.call echo ⟨0⟩ [])).kernel = cramped ∧
    (cramped.dispatch echo (.call echo ⟨0⟩ [])).activations = [] := by
  have full : (cramped.dispatch echo (.call echo ⟨0⟩ [])).value =
      .error (.rejected .call .callDepthExceeded) := by
    rfl
  exact ⟨full, (rejection_changes_nothing cramped .call .callDepthExceeded).1 echo _ full⟩

end Kernel

end RefMonitor
