import RefMonitor.Kernel.Journal

set_option autoImplicit false

namespace RefMonitor

-- How a frame for a callee is run: the caller, the callee, the selector and the payload. There
-- is no answer where a budget is exhausted.
abbrev Enter := Kernel → Option Key → Key → Selector → Bytes → Option (Run Outcome)

def Program.run (perform : Kernel → Key → Syscall → Option (Run Outcome)) (self : Key) :
    Program → Kernel → Option (Run ModuleResult)
  | .done result, k => some ⟨result, k, []⟩
  | .ask query next, k =>
    let answer := k.answer self query
    ((next answer).run perform self k).map (·.after [.asked k self query answer])
  | .note remark next, k => (next.run perform self k).map (·.after [.noted k self remark])
  | .syscall request next, k =>
    match perform k self request with
    | none => none
    | some r => ((next r.value).run perform self r.kernel).map (·.after r.journal)

namespace Kernel

def prepare (k : Kernel) (caller : Option Key) (callee : Key) :
    Except Obstacle (Module × Frame × Kernel) :=
  match k.resolve? callee with
  | none => .error .unregistered
  | some location =>
    match k.host.module? location with
    | none => .error (.noModule location)
    | some module =>
      match k.frames.push caller callee k.config.maxCallDepth with
      | .error e => .error (.tooDeep e.limit)
      | .ok (frame, frames) => .ok (module, frame, { k with frames })

-- Outside any frame the caller gets a frame of its own around it.
def callWith (enter : Enter) (k : Kernel) (caller target : Key) (selector : Selector)
    (payload : Bytes) : Option (Run Outcome) :=
  if k.frames.isEmpty then
    match k.frames.push none caller k.config.maxCallDepth with
    | .error _ => some ⟨.error (.rejected .call .callDepthExceeded), k, []⟩
    | .ok (_, frames) =>
      (enter { k with frames } (some caller) target selector payload).map fun r =>
        { r with kernel := { r.kernel with frames := r.kernel.frames.pop } }
  else enter k (some caller) target selector payload

def performWith (enter : Enter) (k : Kernel) (caller : Key) (s : Syscall) : Option (Run Outcome) :=
  match k.verdict caller s with
  | .error refusal => some ⟨.error (.rejected s.operation refusal.rejection), k, []⟩
  | .ok () =>
    match s with
    | .call target selector payload => k.callWith enter caller target selector payload
    | _ =>
      match k.commit s with
      | .error kind => some ⟨.error (.rejected s.operation kind), k, []⟩
      | .ok next => some ⟨.ok [], next, []⟩

def dispatchWith (enter : Enter) (k : Kernel) (caller : Key) (s : Syscall) :
    Option (Run Outcome) :=
  (k.performWith enter caller s).map fun r =>
    { r with journal := .attempted k caller s (k.verdict caller s) :: r.journal ++
        [.settled r.kernel caller s r.value] }

/-- Runs a callee in a frame of its own, nested at most `budget` deep. What it did stays done,
also where it fails. -/
def enterWithin : (budget : Nat) → Enter
  | 0, _, _, _, _, _ => none
  | budget + 1, k, caller, callee, selector, payload =>
    match k.prepare caller callee with
    | .error obstacle =>
      some ⟨.error (.rejected .call obstacle.rejection), k, [.blocked k callee obstacle]⟩
    | .ok (module, frame, inside) =>
      ((module selector payload).run (dispatchWith (enterWithin budget)) callee inside).map fun r =>
        ⟨r.value.outcome, { r.kernel with frames := r.kernel.frames.pop },
          .entered inside frame selector payload :: r.journal ++ [.left r.kernel frame r.value]⟩

def invokeWith (enter : Enter) (k : Kernel) (target : Option Key) (selector : Selector)
    (payload : Bytes) : Option (Run Outcome) :=
  match target.or k.entry with
  | none => some ⟨.error (.rejected .call .notFound), k, [.unanswered none]⟩
  | some target =>
    if k.table.contains target then enter k none target selector payload
    else some ⟨.error (.rejected .call .notFound), k, [.unanswered (some target)]⟩

-- The nesting that is still possible, and one for the call that is refused.
def budget (k : Kernel) : Nat := k.config.maxCallDepth + 1 - k.frames.length + 1

end Kernel

namespace Kernel

inductive Calls (enter : Enter) (k : Kernel) (caller target : Key) (selector : Selector)
    (payload : Bytes) : Run Outcome → Prop where
  | full {limit : DepthExceeded} (outside : k.frames.isEmpty = true)
      (full : k.frames.push none caller k.config.maxCallDepth = .error limit) :
      Calls enter k caller target selector payload
        ⟨.error (.rejected .call .callDepthExceeded), k, []⟩
  | root {frame : Frame} {frames : FrameStack} {inner : Run Outcome}
      (outside : k.frames.isEmpty = true)
      (pushed : k.frames.push none caller k.config.maxCallDepth = .ok (frame, frames))
      (run : enter { k with frames } (some caller) target selector payload = some inner) :
      Calls enter k caller target selector payload
        { inner with kernel := { inner.kernel with frames := inner.kernel.frames.pop } }
  | nested {r : Run Outcome} (inside : k.frames.isEmpty = false)
      (run : enter k (some caller) target selector payload = some r) :
      Calls enter k caller target selector payload r

inductive Performs (enter : Enter) (k : Kernel) (caller : Key) : Syscall → Run Outcome → Prop where
  | refused {s : Syscall} {refusal : Refusal} (refused : k.verdict caller s = .error refusal) :
      Performs enter k caller s ⟨.error (.rejected s.operation refusal.rejection), k, []⟩
  | called {target : Key} {selector : Selector} {payload : Bytes} {r : Run Outcome}
      (admitted : k.verdict caller (.call target selector payload) = .ok ())
      (calls : Calls enter k caller target selector payload r) :
      Performs enter k caller (.call target selector payload) r
  | failed {s : Syscall} {kind : Rejection} (admitted : k.verdict caller s = .ok ())
      (failed : k.commit s = .error kind) :
      Performs enter k caller s ⟨.error (.rejected s.operation kind), k, []⟩
  | committed {s : Syscall} {next : Kernel} (admitted : k.verdict caller s = .ok ())
      (effective : s.operation ≠ .call) (committed : k.commit s = .ok next) :
      Performs enter k caller s ⟨.ok [], next, []⟩

inductive Enters (budget : Nat) (k : Kernel) (caller : Option Key) (callee : Key)
    (selector : Selector) (payload : Bytes) : Run Outcome → Prop where
  | blocked {obstacle : Obstacle} (blocked : k.prepare caller callee = .error obstacle) :
      Enters budget k caller callee selector payload
        ⟨.error (.rejected .call obstacle.rejection), k, [.blocked k callee obstacle]⟩
  | ran {module : Module} {frame : Frame} {inside : Kernel} {inner : Run ModuleResult}
      (prepared : k.prepare caller callee = .ok (module, frame, inside))
      (run : (module selector payload).run (dispatchWith (enterWithin budget)) callee inside =
        some inner) :
      Enters budget k caller callee selector payload
        ⟨inner.value.outcome, { inner.kernel with frames := inner.kernel.frames.pop },
          .entered inside frame selector payload ::
            (inner.journal ++ [.left inner.kernel frame inner.value])⟩

inductive Invokes (enter : Enter) (k : Kernel) (target : Option Key) (selector : Selector)
    (payload : Bytes) : Run Outcome → Prop where
  | nobody (nobody : target.or k.entry = none) :
      Invokes enter k target selector payload
        ⟨.error (.rejected .call .notFound), k, [.unanswered none]⟩
  | absent {t : Key} (chosen : target.or k.entry = some t) (absent : k.table.contains t = false) :
      Invokes enter k target selector payload
        ⟨.error (.rejected .call .notFound), k, [.unanswered (some t)]⟩
  | entered {t : Key} {r : Run Outcome} (chosen : target.or k.entry = some t)
      (live : k.table.contains t = true) (run : enter k none t selector payload = some r) :
      Invokes enter k target selector payload r

theorem calls_of_callWith {enter : Enter} {k : Kernel} {caller target : Key} {selector : Selector}
    {payload : Bytes} {r : Run Outcome}
    (h : k.callWith enter caller target selector payload = some r) :
    Calls enter k caller target selector payload r := by
  unfold callWith at h
  split at h
  next outside =>
    split at h
    next limit full =>
      cases h
      exact .full outside full
    next frame frames pushed =>
      obtain ⟨inner, run, rfl⟩ := Option.map_eq_some_iff.mp h
      exact .root outside pushed run
  next inside => exact .nested (Bool.eq_false_iff.mpr inside) h

theorem performs_of_dispatchWith {enter : Enter} {k : Kernel} {caller : Key} {s : Syscall}
    {r : Run Outcome} (h : k.dispatchWith enter caller s = some r) :
    ∃ inner, Performs enter k caller s inner ∧ r = ⟨inner.value, inner.kernel,
      .attempted k caller s (k.verdict caller s) ::
        (inner.journal ++ [.settled inner.kernel caller s inner.value])⟩ := by
  obtain ⟨inner, run, rfl⟩ := Option.map_eq_some_iff.mp h
  refine ⟨inner, ?_, rfl⟩
  unfold performWith at run
  split at run
  next refusal refused =>
    cases run
    exact .refused refused
  next admitted =>
    split at run
    next target selector payload => exact .called admitted (calls_of_callWith run)
    next noncall =>
      split at run
      next kind failed =>
        cases run
        exact .failed admitted failed
      next next committed =>
        cases run
        refine .committed admitted ?_ committed
        cases s <;> simp [Syscall.operation] at noncall ⊢

theorem enters_of_enterWithin {budget : Nat} {k : Kernel} {caller : Option Key} {callee : Key}
    {selector : Selector} {payload : Bytes} {r : Run Outcome}
    (h : enterWithin (budget + 1) k caller callee selector payload = some r) :
    Enters budget k caller callee selector payload r := by
  unfold enterWithin at h
  split at h
  next obstacle blocked =>
    cases h
    exact .blocked blocked
  next module frame inside prepared =>
    obtain ⟨inner, run, rfl⟩ := Option.map_eq_some_iff.mp h
    exact .ran prepared run

theorem invokes_of_invokeWith {enter : Enter} {k : Kernel} {target : Option Key}
    {selector : Selector} {payload : Bytes} {r : Run Outcome}
    (h : k.invokeWith enter target selector payload = some r) :
    Invokes enter k target selector payload r := by
  unfold invokeWith at h
  split at h
  next nobody =>
    cases h
    exact .nobody nobody
  next t chosen =>
    split at h
    next live => exact .entered chosen live h
    next absent =>
      cases h
      exact .absent chosen (Bool.eq_false_iff.mpr absent)

end Kernel

def Run.Balanced {α : Type} (k : Kernel) (r : Run α) : Prop :=
  r.kernel.frames = k.frames ∧ r.kernel.config = k.config

def Enter.Balanced (enter : Enter) : Prop :=
  ∀ k caller callee selector payload r,
    enter k caller callee selector payload = some r → r.Balanced k

theorem Program.run_balanced {perform : Kernel → Key → Syscall → Option (Run Outcome)}
    (balanced : ∀ k caller s r, perform k caller s = some r → r.Balanced k) {self : Key}
    {program : Program} {k : Kernel} {r : Run ModuleResult}
    (h : program.run perform self k = some r) : r.Balanced k := by
  induction program generalizing k r with
  | done result =>
    cases h
    exact ⟨rfl, rfl⟩
  | ask query next ih =>
    obtain ⟨inner, run, rfl⟩ := Option.map_eq_some_iff.mp h
    have rest : inner.Balanced k := ih _ run
    exact rest
  | note remark next ih =>
    obtain ⟨inner, run, rfl⟩ := Option.map_eq_some_iff.mp h
    have rest : inner.Balanced k := ih run
    exact rest
  | syscall request next ih =>
    unfold Program.run at h
    split at h
    · cases h
    · rename_i first performed
      obtain ⟨inner, run, rfl⟩ := Option.map_eq_some_iff.mp h
      have rest := ih _ run
      have start := balanced _ _ _ _ performed
      exact ⟨rest.1.trans start.1, rest.2.trans start.2⟩

namespace Kernel

theorem dispatchWith_balanced {enter : Enter} (balanced : enter.Balanced) {k : Kernel}
    {caller : Key} {s : Syscall} {r : Run Outcome}
    (h : k.dispatchWith enter caller s = some r) : r.Balanced k := by
  obtain ⟨inner, performs, rfl⟩ := performs_of_dispatchWith h
  suffices inner.Balanced k from this
  cases performs with
  | refused | failed => exact ⟨rfl, rfl⟩
  | committed admitted effective committed =>
    obtain ⟨frames, config, -⟩ := commit_ok committed
    exact ⟨frames, config⟩
  | called admitted calls =>
    cases calls with
    | full => exact ⟨rfl, rfl⟩
    | nested inside run => exact balanced _ _ _ _ _ _ run
    | root outside pushed run =>
      have inside := balanced _ _ _ _ _ _ run
      exact ⟨by rw [inside.1]; exact FrameStack.pop_of_push pushed, inside.2⟩

inductive Prepares (k : Kernel) (caller : Option Key) (callee : Key) :
    Except Obstacle (Module × Frame × Kernel) → Prop where
  | unregistered (absent : k.table.lookup callee = none) :
      Prepares k caller callee (.error .unregistered)
  | noModule {p : Procedure} (found : k.table.lookup callee = some p)
      (missing : k.host.module? p.location = none) :
      Prepares k caller callee (.error (.noModule p.location))
  | tooDeep {p : Procedure} {module : Module} {refused : DepthExceeded}
      (found : k.table.lookup callee = some p) (resolved : k.host.module? p.location = some module)
      (full : k.frames.push caller callee k.config.maxCallDepth = .error refused) :
      Prepares k caller callee (.error (.tooDeep refused.limit))
  | ready {p : Procedure} {module : Module} {frame : Frame} {frames : FrameStack}
      (found : k.table.lookup callee = some p) (resolved : k.host.module? p.location = some module)
      (pushed : k.frames.push caller callee k.config.maxCallDepth = .ok (frame, frames)) :
      Prepares k caller callee (.ok (module, frame, { k with frames }))

theorem prepares (k : Kernel) (caller : Option Key) (callee : Key) :
    Prepares k caller callee (k.prepare caller callee) := by
  unfold prepare resolve?
  cases found : k.table.lookup callee with
  | none => exact .unregistered found
  | some p =>
    dsimp only [Option.map_some]
    split
    next missing => exact .noModule found missing
    next module resolved =>
      split
      next limit full => exact .tooDeep found resolved full
      next frame frames pushed => exact .ready found resolved pushed

theorem prepare_ok {k inside : Kernel} {caller : Option Key} {callee : Key} {module : Module}
    {frame : Frame} (h : k.prepare caller callee = .ok (module, frame, inside)) :
    ∃ frames, k.frames.push caller callee k.config.maxCallDepth = .ok (frame, frames) ∧
      inside = { k with frames } := by
  have prepares := k.prepares caller callee
  rw [h] at prepares
  cases prepares with
  | ready found resolved pushed => exact ⟨_, pushed, rfl⟩

theorem enterWithin_balanced (budget : Nat) : (enterWithin budget).Balanced := by
  induction budget with
  | zero =>
    intro k caller callee selector payload r h
    cases h
  | succ budget ih =>
    intro k caller callee selector payload r h
    cases enters_of_enterWithin h with
    | blocked => exact ⟨rfl, rfl⟩
    | ran prepared run =>
      obtain ⟨frames, pushed, rfl⟩ := prepare_ok prepared
      have body := Program.run_balanced (fun _ _ _ _ => dispatchWith_balanced ih) run
      exact ⟨by rw [body.1]; exact FrameStack.pop_of_push pushed, body.2⟩

theorem invokeWith_balanced {enter : Enter} (balanced : enter.Balanced) {k : Kernel}
    {target : Option Key} {selector : Selector} {payload : Bytes} {r : Run Outcome}
    (h : k.invokeWith enter target selector payload = some r) : r.Balanced k := by
  cases invokes_of_invokeWith h with
  | nobody | absent => exact ⟨rfl, rfl⟩
  | entered chosen live run => exact balanced _ _ _ _ _ _ run

def Answers (enter : Enter) (budget : Nat) : Prop :=
  ∀ k caller callee selector payload,
    k.budget ≤ budget → (enter k caller callee selector payload).isSome

theorem budget_push {k : Kernel} {caller : Option Key} {callee : Key} {frame : Frame}
    {frames : FrameStack}
    (pushed : k.frames.push caller callee k.config.maxCallDepth = .ok (frame, frames)) :
    { k with frames := frames }.budget < k.budget := by
  have inside := (FrameStack.frames_of_push pushed).1
  have length := FrameStack.length_of_push pushed
  simp only [budget, length]
  omega

theorem dispatchWith_isSome {enter : Enter} {budget : Nat} (answers : Answers enter budget)
    {k : Kernel} (enough : k.budget ≤ budget) (caller : Key) (s : Syscall) :
    (k.dispatchWith enter caller s).isSome := by
  unfold dispatchWith performWith
  rw [Option.isSome_map]
  split
  · rfl
  · split
    · unfold callWith
      split
      · split
        · rfl
        · rename_i pushed
          rw [Option.isSome_map]
          exact answers _ _ _ _ _ (Nat.le_trans (Nat.le_of_lt (budget_push pushed)) enough)
      · exact answers _ _ _ _ _ enough
    · split <;> rfl

theorem enterWithin_isSome (budget : Nat) : Answers (enterWithin budget) budget := by
  induction budget with
  | zero => intro k caller callee selector payload enough; simp [Kernel.budget] at enough
  | succ budget ih =>
    intro k caller callee selector payload enough
    unfold enterWithin
    split
    · rfl
    · rename_i module frame inside prepared
      obtain ⟨frames, pushed, rfl⟩ := prepare_ok prepared
      rw [Option.isSome_map]
      have less := budget_push pushed
      have within : { k with frames := frames }.budget ≤ budget := by omega
      generalize module selector payload = program
      generalize { k with frames := frames } = inside at within
      induction program generalizing inside with
      | done result => rfl
      | ask query next next_ih =>
        unfold Program.run
        rw [Option.isSome_map]
        exact next_ih _ inside within
      | note remark next next_ih =>
        unfold Program.run
        rw [Option.isSome_map]
        exact next_ih inside within
      | syscall request next next_ih =>
        unfold Program.run
        obtain ⟨r, performed⟩ :=
          Option.isSome_iff_exists.mp (dispatchWith_isSome ih within callee request)
        have same := dispatchWith_balanced (enterWithin_balanced budget) performed
        rw [performed]
        dsimp only
        rw [Option.isSome_map]
        apply next_ih
        simpa [Kernel.budget, same.1, same.2] using within

theorem invokeWith_isSome {enter : Enter} {budget : Nat} (answers : Answers enter budget)
    {k : Kernel} (enough : k.budget ≤ budget) (target : Option Key) (selector : Selector)
    (payload : Bytes) : (k.invokeWith enter target selector payload).isSome := by
  unfold invokeWith
  split
  · rfl
  · split
    · exact answers _ _ _ _ _ enough
    · rfl

def enter (k : Kernel) (caller : Option Key) (callee : Key) (selector : Selector)
    (payload : Bytes) : Run Outcome :=
  (enterWithin k.budget k caller callee selector payload).get
    (enterWithin_isSome k.budget k caller callee selector payload (Nat.le_refl _))

def dispatch (k : Kernel) (caller : Key) (s : Syscall) : Run Outcome :=
  (k.dispatchWith (enterWithin k.budget) caller s).get
    (dispatchWith_isSome (enterWithin_isSome k.budget) (Nat.le_refl _) caller s)

theorem dispatchWith_budget (k : Kernel) (caller : Key) (s : Syscall) :
    k.dispatchWith (enterWithin k.budget) caller s = some (k.dispatch caller s) :=
  (Option.some_get _).symm

def execute (k : Kernel) (caller : Key) (s : Syscall) : Run ResultCode :=
  (k.dispatch caller s).map Outcome.code

def invoke (k : Kernel) (target : Option Key) (selector : Selector) (payload : Bytes) :
    Run Outcome :=
  (k.invokeWith (enterWithin k.budget) target selector payload).get
    (invokeWith_isSome (enterWithin_isSome k.budget) (Nat.le_refl _) target selector payload)

theorem invokeWith_budget (k : Kernel) (target : Option Key) (selector : Selector)
    (payload : Bytes) : k.invokeWith (enterWithin k.budget) target selector payload =
      some (k.invoke target selector payload) :=
  (Option.some_get _).symm

end Kernel

end RefMonitor
