import RefMonitor.Kernel.Run

set_option autoImplicit false

namespace RefMonitor

namespace FrameStack

theorem push_of_isEmpty {s : FrameStack} (outside : s.isEmpty = true) (caller : Option Key)
    (callee : Key) (limit : Nat) :
    s.push caller callee limit = .ok (⟨caller, callee, 0⟩, ⟨[⟨caller, callee, 0⟩]⟩) := by
  simp [push, length, isEmpty_iff.mp outside]

end FrameStack

namespace Kernel

-- The kernel from which a caller enters its callee. Outside every frame it has one for the caller.
def grounded (k : Kernel) (caller : Key) : Kernel :=
  if k.frames.isEmpty then { k with frames := ⟨[⟨none, caller, 0⟩]⟩ } else k

theorem grounded_outside {k : Kernel} (outside : k.frames.isEmpty = true) (caller : Key) :
    k.grounded caller = { k with frames := ⟨[⟨none, caller, 0⟩]⟩ } := by
  rw [grounded, if_pos outside]

theorem grounded_inside {k : Kernel} (inside : k.frames.isEmpty = false) (caller : Key) :
    k.grounded caller = k := by
  simp [grounded, inside]

theorem grounded_eq (k : Kernel) (caller : Key) :
    k.grounded caller = { k with frames := (k.grounded caller).frames } := by
  unfold grounded
  split <;> rfl

theorem grounded_restored (k : Kernel) (caller : Key) :
    { k.grounded caller with frames := k.frames } = k := by
  rw [grounded_eq]

@[simp] theorem grounded_table (k : Kernel) (caller : Key) :
    (k.grounded caller).table = k.table := by
  rw [grounded_eq]

@[simp] theorem grounded_host (k : Kernel) (caller : Key) :
    (k.grounded caller).host = k.host := by
  rw [grounded_eq]

@[simp] theorem grounded_config (k : Kernel) (caller : Key) :
    (k.grounded caller).config = k.config := by
  rw [grounded_eq]

@[simp] theorem length_grounded (k : Kernel) (caller : Key) :
    (k.grounded caller).frames.length = max k.frames.length 1 := by
  cases outside : k.frames.isEmpty with
  | true =>
    rw [grounded_outside outside]
    simp [FrameStack.length, FrameStack.isEmpty_iff.mp outside]
  | false =>
    have occupied : 0 < k.frames.length := by
      simpa [FrameStack.isEmpty, FrameStack.length, List.length_pos_iff] using outside
    rw [grounded_inside outside]
    omega

theorem Calls.from_grounded {enter : Enter} (balanced : enter.Balanced) {k : Kernel}
    {caller target : Key} {selector : Selector} {payload : Bytes} {r : Run Outcome}
    (calls : Calls enter k caller target selector payload r) :
    ∃ inner, enter (k.grounded caller) (some caller) target selector payload = some inner ∧
      r = { inner with kernel := { inner.kernel with frames := k.frames } } := by
  cases calls with
  | full outside full =>
    rw [FrameStack.push_of_isEmpty outside] at full
    cases full
  | nested inside run =>
    have same := (balanced _ _ _ _ _ _ run).1
    rw [grounded_inside inside]
    exact ⟨r, run, by rw [← same]⟩
  | root outside pushed run =>
    have same := (balanced _ _ _ _ _ _ run).1
    have restored := FrameStack.pop_of_push pushed
    rw [FrameStack.push_of_isEmpty outside] at pushed
    cases pushed
    rw [grounded_outside outside]
    exact ⟨_, run, by rw [same, restored]⟩

end Kernel

open Kernel in
/-- What somebody does over a stretch of time, as a nested whole: what is asked and noted, and every
syscall from its attempt to its return, with the activity of the module it runs in between. -/
inductive Activity : Key → Kernel → List Moment → Kernel → Prop where
  | done {self : Key} {k : Kernel} : Activity self k [] k
  | ask {self : Key} {k last : Kernel} {query : Query} {rest : List Moment}
      (later : Activity self k rest last) :
      Activity self k (.asked k self query (k.answer self query) :: rest) last
  | note {self : Key} {k last : Kernel} {remark : Note} {rest : List Moment}
      (later : Activity self k rest last) : Activity self k (.noted k self remark :: rest) last
  | refuse {self : Key} {k last : Kernel} {s : Syscall} {refusal : Refusal} {rest : List Moment}
      (refused : k.verdict self s = .error refusal) (later : Activity self k rest last) :
      Activity self k (.attempted k self s (.error refusal) ::
        .settled k self s (.error (.rejected s.operation refusal.rejection)) :: rest) last
  | fail {self : Key} {k last : Kernel} {s : Syscall} {kind : Rejection} {rest : List Moment}
      (admitted : k.verdict self s = .ok ()) (failed : k.commit s = .error kind)
      (later : Activity self k rest last) :
      Activity self k (.attempted k self s (.ok ()) ::
        .settled k self s (.error (.rejected s.operation kind)) :: rest) last
  | commit {self : Key} {k next last : Kernel} {s : Syscall} {rest : List Moment}
      (admitted : k.verdict self s = .ok ()) (effective : s.operation ≠ .call)
      (committed : k.commit s = .ok next) (later : Activity self next rest last) :
      Activity self k (.attempted k self s (.ok ()) :: .settled next self s (.ok []) :: rest) last
  | block {self target : Key} {k last : Kernel} {selector : Selector} {payload : Bytes}
      {obstacle : Obstacle} {rest : List Moment}
      (admitted : k.verdict self (.call target selector payload) = .ok ())
      (blocked : (k.grounded self).prepare (some self) target = .error obstacle)
      (later : Activity self k rest last) :
      Activity self k (.attempted k self (.call target selector payload) (.ok ()) ::
        .blocked (k.grounded self) target obstacle ::
        .settled k self (.call target selector payload)
          (.error (.rejected .call obstacle.rejection)) :: rest) last
  | call {self target : Key} {k inside middle last : Kernel} {selector : Selector}
      {payload : Bytes} {module : Module} {frame : Frame} {result : ModuleResult}
      {body rest : List Moment}
      (admitted : k.verdict self (.call target selector payload) = .ok ())
      (prepared : (k.grounded self).prepare (some self) target = .ok (module, frame, inside))
      (within : Activity target inside body middle)
      (later : Activity self { middle with frames := k.frames } rest last) :
      Activity self k (.attempted k self (.call target selector payload) (.ok ()) ::
        .entered inside frame selector payload :: (body ++ .left middle frame result ::
        .settled { middle with frames := k.frames } self (.call target selector payload)
          result.outcome :: rest)) last

inductive Entry (k : Kernel) (caller : Option Key) (callee : Key) (selector : Selector)
    (payload : Bytes) : Run Outcome → Prop where
  | blocked {obstacle : Obstacle} (blocked : k.prepare caller callee = .error obstacle) :
      Entry k caller callee selector payload
        ⟨.error (.rejected .call obstacle.rejection), k, [.blocked k callee obstacle]⟩
  | ran {module : Module} {frame : Frame} {inside middle : Kernel} {body : List Moment}
      {result : ModuleResult} (prepared : k.prepare caller callee = .ok (module, frame, inside))
      (within : Activity callee inside body middle) :
      Entry k caller callee selector payload
        ⟨result.outcome, { middle with frames := k.frames },
          .entered inside frame selector payload :: (body ++ [.left middle frame result])⟩

def Enter.Nests (enter : Enter) : Prop :=
  ∀ k caller callee selector payload r,
    enter k caller callee selector payload = some r → Entry k caller callee selector payload r

theorem Program.run_activity {perform : Kernel → Key → Syscall → Option (Run Outcome)} {self : Key}
    (acts : ∀ {k s r}, perform k self s = some r → ∀ {rest last},
      Activity self r.kernel rest last → Activity self k (r.journal ++ rest) last)
    {program : Program} {k : Kernel} {r : Run ModuleResult}
    (h : program.run perform self k = some r) : Activity self k r.journal r.kernel := by
  induction program generalizing k r with
  | done result =>
    cases h
    exact .done
  | ask query next ih =>
    obtain ⟨inner, run, rfl⟩ := Option.map_eq_some_iff.mp h
    exact .ask (ih _ run)
  | note remark next ih =>
    obtain ⟨inner, run, rfl⟩ := Option.map_eq_some_iff.mp h
    exact .note (ih run)
  | syscall request next ih =>
    unfold Program.run at h
    split at h
    next => cases h
    next first performed =>
      obtain ⟨inner, run, rfl⟩ := Option.map_eq_some_iff.mp h
      exact acts performed (ih _ run)

namespace Kernel

theorem dispatchWith_activity {enter : Enter} (nests : enter.Nests) (balanced : enter.Balanced)
    {k : Kernel} {caller : Key} {s : Syscall} {r : Run Outcome}
    (h : k.dispatchWith enter caller s = some r) {rest : List Moment} {last : Kernel}
    (later : Activity caller r.kernel rest last) : Activity caller k (r.journal ++ rest) last := by
  obtain ⟨inner, performs, rfl⟩ := performs_of_dispatchWith h
  cases performs with
  | refused refused =>
    rw [refused]
    exact .refuse refused later
  | failed admitted failed =>
    rw [admitted]
    exact .fail admitted failed later
  | committed admitted effective committed =>
    rw [admitted]
    exact .commit admitted effective committed later
  | called admitted calls =>
    obtain ⟨entered, run, rfl⟩ := calls.from_grounded balanced
    rw [admitted]
    cases nests _ _ _ _ _ _ run with
    | blocked blocked =>
      simp only [grounded_restored] at later ⊢
      exact .block admitted blocked later
    | ran prepared within =>
      simpa using Activity.call admitted prepared within later

theorem enterWithin_nests (budget : Nat) : (enterWithin budget).Nests := by
  induction budget with
  | zero =>
    intro k caller callee selector payload r h
    cases h
  | succ budget ih =>
    intro k caller callee selector payload r h
    have balanced := (enterWithin_balanced (budget + 1) _ _ _ _ _ _ h).1
    cases enters_of_enterWithin h with
    | blocked blocked => exact .blocked blocked
    | @ran module frame inside inner prepared run =>
      have same : inner.kernel.frames.pop = k.frames := balanced
      have within := Program.run_activity
        (dispatchWith_activity ih (enterWithin_balanced budget)) run
      rw [same]
      exact .ran prepared within

theorem dispatch_activity (k : Kernel) (caller : Key) (s : Syscall) :
    Activity caller k (k.dispatch caller s).journal (k.dispatch caller s).kernel := by
  have whole := dispatchWith_activity (enterWithin_nests _) (enterWithin_balanced _)
    (dispatchWith_budget k caller s) .done
  rwa [List.append_nil] at whole

theorem invoke_entry (k : Kernel) (target : Option Key) (selector : Selector) (payload : Bytes) :
    ((∀ t, target.or k.entry = some t → k.table.contains t = false) ∧
      k.invoke target selector payload =
        ⟨.error (.rejected .call .notFound), k, [.unanswered (target.or k.entry)]⟩) ∨
    ∃ t, target.or k.entry = some t ∧ k.table.contains t = true ∧
      Entry k none t selector payload (k.invoke target selector payload) := by
  have invokes := invokes_of_invokeWith (invokeWith_budget k target selector payload)
  generalize k.invoke target selector payload = r at invokes
  cases invokes with
  | nobody nobody => exact .inl ⟨by simp [nobody], by rw [nobody]⟩
  | @absent t chosen absent =>
    refine .inl ⟨?_, by rw [chosen]⟩
    intro other same
    rw [chosen] at same
    cases same
    exact absent
  | entered chosen live run =>
    exact .inr ⟨_, chosen, live, enterWithin_nests _ _ _ _ _ _ _ run⟩

end Kernel

end RefMonitor
