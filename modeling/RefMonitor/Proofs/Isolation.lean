import RefMonitor.Proofs.Authority
import RefMonitor.Proofs.Budget
import RefMonitor.Proofs.Mediation
import RefMonitor.Proofs.TableHistory

set_option autoImplicit false

namespace RefMonitor

inductive Observation where
  | entered (frame : Frame) (selector : Selector) (payload : Bytes)
  | learned (self : Key) (query : Query) (answer : query.Answer)
  | obtained (self : Key) (request : Syscall) (outcome : Outcome)

def Moment.observation? : Moment → Option Observation
  | .entered _ frame selector payload => some (.entered frame selector payload)
  | .asked _ self query answer => some (.learned self query answer)
  | .settled _ self request outcome => some (.obtained self request outcome)
  | .registered .. | .appointed .. | .unanswered _ | .attempted .. | .blocked .. | .left ..
  | .noted .. => none

def Run.observations {α : Type} (r : Run α) : List Observation :=
  r.journal.filterMap Moment.observation?

theorem Run.observations_after {α : Type} (r : Run α) (earlier : List Moment) :
    (r.after earlier).observations = earlier.filterMap Moment.observation? ++ r.observations :=
  List.filterMap_append

namespace Kernel

/-- Two kernels in which the same names are listed and nothing differs but the modules and what is
registered under other names than `t`. -/
structure Alike (t : Key) (k twin : Kernel) : Prop where
  keys : k.table.keys = twin.table.keys
  registered : k.table.registration? t = twin.table.registration? t
  entry : k.entry = twin.entry
  frames : k.frames = twin.frames
  config : k.config = twin.config
  storage : k.host.storage = twin.host.storage
  events : k.host.events = twin.host.events

structure Isolated (t : Key) (k twin : Kernel) : Prop where
  alike : k.Alike t twin
  intact : k.table.Intact
  intact_twin : twin.table.Intact
  callless : ∀ location held, k.table.registration? t = some (location, held) →
    ∀ c ∈ held.caps, c.operation ≠ .call

structure Matched {α : Type} (t : Key) (r other : Run α) : Prop where
  value : r.value = other.value
  observations : r.observations = other.observations
  isolated : r.kernel.Isolated t other.kernel

namespace Isolated

variable {t : Key} {k twin : Kernel}

theorem reframe (isolated : k.Isolated t twin) (frames : FrameStack) :
    Isolated t { k with frames } { twin with frames } :=
  ⟨{ isolated.alike with frames := rfl }, isolated.intact, isolated.intact_twin, isolated.callless⟩

theorem contains_eq (isolated : k.Isolated t twin) (key : Key) :
    k.table.contains key = twin.table.contains key := by
  rw [Table.contains, Table.contains, isolated.intact.sound.positions_congr
    isolated.intact_twin.sound isolated.alike.keys]

theorem lookup_eq (isolated : k.Isolated t twin) : k.table.lookup t = twin.table.lookup t :=
  isolated.intact.sound.lookup_congr isolated.intact_twin.sound isolated.alike.keys
    isolated.alike.registered

theorem answer_eq (isolated : k.Isolated t twin) (query : Query) :
    k.answer t query = twin.answer t query := by
  have alike := isolated.alike
  cases query with
  | key => rfl
  | frame => exact congrArg FrameStack.current? alike.frames
  | slot address => simp only [answer, Host.slot, alike.storage]
  | entry => exact alike.entry
  | procedures => exact alike.keys
  | capabilities => simp only [answer, isolated.lookup_eq]

theorem verdict_eq (isolated : k.Isolated t twin) (s : Syscall) :
    k.verdict t s = twin.verdict t s := by
  have target : k.targetRefusal? s = twin.targetRefusal? s := by
    cases s <;> simp only [targetRefusal?, isolated.contains_eq, isolated.alike.entry]
  simp only [verdict, authorize, isolated.contains_eq, isolated.lookup_eq, isolated.alike.entry,
    isolated.alike.config, target]

theorem verdict_call (isolated : k.Isolated t twin) (target : Key) (selector : Selector)
    (payload : Bytes) : k.verdict t (.call target selector payload) ≠ .ok () := by
  intro admitted
  obtain ⟨-, -, -, p, found, authorized⟩ := verdict_ok_iff.mp admitted
  have member := ((isolated.intact.sound.lookup_iff t p).mp found).1
  rw [Held.authorize_iff (isolated.intact.summarized p member)] at authorized
  obtain ⟨-, ⟨c, held, kind, -⟩, -⟩ := authorized
  exact isolated.callless _ _ (Table.registration?_of_lookup found) c held kind

-- What `t` registers is not `t`: whoever acts is registered already.
theorem commit (isolated : k.Isolated t twin) {s : Syscall} {next after : Kernel}
    (admitted : k.verdict t s = .ok ()) (committed : k.commit s = .ok next)
    (committed_twin : twin.commit s = .ok after) : next.Isolated t after := by
  obtain ⟨alike, intact, intact_twin, callless⟩ := isolated
  have commits := commits_of_commit committed
  cases commits_of_commit committed_twin with
  | write =>
    cases commits
    exact ⟨{ alike with storage := by simp [Host.store, alike.storage] }, intact, intact_twin,
      callless⟩
  | log =>
    cases commits
    exact ⟨{ alike with events := by simp [Host.emit, alike.events] }, intact, intact_twin,
      callless⟩
  | call =>
    cases commits
    exact ⟨alike, intact, intact_twin, callless⟩
  | setEntry =>
    cases commits
    exact ⟨{ alike with entry := rfl }, intact, intact_twin, callless⟩
  | delete deleted_twin =>
    cases commits with
    | delete deleted =>
      obtain ⟨i, p, first⟩ := Table.deletion_of_delete intact.sound deleted
      obtain ⟨j, q, second⟩ := Table.deletion_of_delete intact_twin.sound deleted_twin
      have now := Table.registration?_delete intact.sound deleted t
      have now_twin := Table.registration?_delete intact_twin.sound deleted_twin t
      refine ⟨{ alike with
        keys := first.keys_congr second intact.sound alike.keys, registered := ?_ },
        Table.Changes.intact (.deleted deleted) intact,
        Table.Changes.intact (.deleted deleted_twin) intact_twin, ?_⟩
      · rw [now, now_twin, alike.registered]
      · intro location held registered
        rw [now] at registered
        split at registered
        next => cases registered
        next => exact callless location held registered
  | @register target location capabilities index table created_twin =>
    cases commits with
    | register created =>
      have live := (verdict_ok_iff.mp admitted).1
      have other : t ≠ target := by
        rintro rfl
        rw [((Table.create_eq_ok_iff ..).mp created).2.1] at live
        cases live
      have now := Table.registration?_create intact.sound created t
      have now_twin := Table.registration?_create intact_twin.sound created_twin t
      rw [if_neg other] at now now_twin
      refine ⟨{ alike with keys := ?_, registered := ?_ },
        Table.Changes.intact (.created created) intact,
        Table.Changes.intact (.created created_twin) intact_twin, ?_⟩
      · rw [Table.Sound.keys_create created, Table.Sound.keys_create created_twin, alike.keys]
      · rw [now, now_twin, alike.registered]
      · intro location held registered
        rw [now] at registered
        exact callless location held registered

theorem dispatch (isolated : k.Isolated t twin) (s : Syscall) :
    Matched t (k.dispatch t s) (twin.dispatch t s) := by
  have same := isolated.verdict_eq s
  cases verdict : k.verdict t s with
  | error refusal =>
    rw [dispatch_of_refused verdict, dispatch_of_refused (same ▸ verdict)]
    exact ⟨rfl, rfl, isolated⟩
  | ok =>
    have effective : s.operation ≠ .call := by
      cases s with
      | call target selector payload => cases isolated.verdict_call target selector payload verdict
      | write | log | delete | setEntry | register => simp [Syscall.operation]
    obtain ⟨next, committed⟩ := commit_of_verdict isolated.intact.sound verdict
    obtain ⟨after, committed_twin⟩ :=
      commit_of_verdict isolated.intact_twin.sound (same ▸ verdict)
    rw [dispatch_of_committed verdict effective committed,
      dispatch_of_committed (same ▸ verdict) effective committed_twin]
    exact ⟨rfl, rfl, isolated.commit verdict committed committed_twin⟩

-- The program of a module is adaptive, and the induction is on it: what comes next depends on what
-- was seen so far, and that is the same in both.
theorem perform (isolated : k.Isolated t twin) (program : Program) :
    Matched t (program.perform t k) (program.perform t twin) := by
  induction program generalizing k twin with
  | done result => exact ⟨rfl, rfl, isolated⟩
  | note remark next ih =>
    obtain ⟨value, observations, later⟩ := ih isolated
    refine ⟨value, ?_, later⟩
    rw [Program.perform, Program.perform, Run.observations_after, Run.observations_after,
      observations]
    rfl
  | ask query next ih =>
    have learned := isolated.answer_eq query
    obtain ⟨value, observations, later⟩ := ih (k.answer t query) isolated
    simp only [Program.perform, ← learned]
    refine ⟨value, ?_, later⟩
    rw [Run.observations_after, Run.observations_after, observations]
    rfl
  | syscall request next ih =>
    obtain ⟨outcome, seen, between⟩ := isolated.dispatch request
    obtain ⟨value, observations, later⟩ := ih (k.dispatch t request).value between
    simp only [Program.perform, ← outcome]
    refine ⟨value, ?_, later⟩
    rw [Run.observations_after, Run.observations_after, observations]
    exact congrArg (· ++ _) seen

theorem prepare_eq (isolated : k.Isolated t twin)
    (code : ∀ location, k.resolve? t = some location →
      k.host.module? location = twin.host.module? location) (caller : Option Key) :
    twin.prepare caller t = (k.prepare caller t).map fun (module, frame, inside) =>
      (module, frame, { twin with frames := inside.frames }) := by
  have resolved : k.resolve? t = twin.resolve? t := by
    simp only [resolve?, isolated.lookup_eq]
  unfold prepare
  rw [← resolved, ← isolated.alike.frames, ← isolated.alike.config]
  split
  next => rfl
  next location found =>
    rw [← code location found]
    split
    next => rfl
    next => split <;> rfl

end Isolated

/-- What the module gets to see, what it answers and what it leaves behind do not depend on the
other procedures, their authority or their code. -/
theorem isolated_without_call {t : Key} {k twin : Kernel} (isolated : k.Isolated t twin)
    (code : ∀ location, k.resolve? t = some location →
      k.host.module? location = twin.host.module? location)
    {target : Option Key} (chosen : target.or k.entry = some t) (selector : Selector)
    (payload : Bytes) :
    Matched t (k.invoke target selector payload) (twin.invoke target selector payload) ∧
      (k.invoke target selector payload).kernel.table.lookup t =
        (twin.invoke target selector payload).kernel.table.lookup t := by
  suffices matched :
      Matched t (k.invoke target selector payload) (twin.invoke target selector payload) from
    ⟨matched, matched.isolated.lookup_eq⟩
  have chosen_twin : target.or twin.entry = some t := by rwa [← isolated.alike.entry]
  have prepared_twin := isolated.prepare_eq code none
  cases live : k.table.contains t with
  | false =>
    have absent_twin : twin.table.contains t = false := by rwa [← isolated.contains_eq]
    rw [invoke_of_absent chosen live, invoke_of_absent chosen_twin absent_twin]
    exact ⟨rfl, rfl, isolated⟩
  | true =>
    have live_twin : twin.table.contains t = true := by rwa [← isolated.contains_eq]
    cases prepared : k.prepare none t with
    | error obstacle =>
      rw [prepared] at prepared_twin
      rw [invoke_of_blocked chosen live prepared,
        invoke_of_blocked chosen_twin live_twin prepared_twin]
      exact ⟨rfl, rfl, isolated⟩
    | ok ready =>
      obtain ⟨module, frame, inside⟩ := ready
      rw [prepared] at prepared_twin
      obtain ⟨frames, -, rfl⟩ := prepare_ok prepared
      obtain ⟨value, observations, finished⟩ :=
        (isolated.reframe frames).perform (module selector payload)
      rw [invoke_of_prepared chosen live prepared,
        invoke_of_prepared chosen_twin live_twin prepared_twin, ← isolated.alike.frames]
      refine ⟨congrArg ModuleResult.outcome value, ?_, finished.reframe k.frames⟩
      simp only [Run.observations] at observations ⊢
      simp [observations, List.filterMap_cons, Moment.observation?]

-- A hermit between two others. It sends the first away, so that the last takes that place, lets a
-- newcomer in and leaves, after which nothing is done for it any more.
def hermit : Key := ⟨[104], by simp, by simp⟩

def porter : Key := ⟨[111], by simp, by simp⟩

def prioress : Key := ⟨[120], by simp, by simp⟩

def pilgrim : Key := ⟨[108], by simp, by simp⟩

def hermitModule : Module := fun _ _ =>
  .ask .procedures fun keys =>
    .syscall (.delete (keys.headD hermit)) fun _ =>
      .syscall (.register pilgrim (.ofUInt64 5) [.write .zero (.ofUInt64 2)]) fun _ =>
        .syscall (.delete hermit) fun _ =>
          .ask .procedures fun keys =>
            .syscall (.write .zero (.ofUInt64 keys.length.toUInt64)) fun outcome =>
              .done (outcome.mapError Failure.code)

def hermitage (gate : Location) (held : List Capability) (module : Module) : Kernel where
  table := Table.history [.create porter gate held,
    .create hermit (.ofUInt64 7) [.delete [], .register [], .write .zero (.ofUInt64 16)],
    .create prioress gate held]
  entry := some prioress
  frames := .empty
  config := {}
  host := (Host.empty.install (.ofUInt64 7) hermitModule).install gate module

def openGate : Kernel := hermitage (.ofUInt64 8) [.call []] fun _ _ => .done (.ok [])

def barredGate : Kernel := hermitage (.ofUInt64 9) [.setEntry] fun _ _ =>
  .syscall (.setEntry hermit) fun _ => .done (.error .reverted)

theorem isolated_without_call_hermitage :
    openGate.table.registration? prioress ≠ barredGate.table.registration? prioress ∧
    (openGate.invoke (some hermit) ⟨0⟩ []).kernel.table.keys = [prioress, pilgrim] ∧
    (openGate.invoke (some hermit) ⟨0⟩ []).observations =
      (barredGate.invoke (some hermit) ⟨0⟩ []).observations ∧
    (openGate.invoke (some hermit) ⟨0⟩ []).kernel.Alike hermit
      (barredGate.invoke (some hermit) ⟨0⟩ []).kernel := by
  have isolated : openGate.Isolated hermit barredGate := by
    have alike : openGate.Alike hermit barredGate :=
      ⟨by decide +kernel, by decide +kernel, rfl, rfl, rfl, rfl, rfl⟩
    refine ⟨alike, Table.intact_history _, Table.intact_history _, ?_⟩
    intro location held registered
    cases registered
    decide
  have code : ∀ location, openGate.resolve? hermit = some location →
      openGate.host.module? location = barredGate.host.module? location := by
    intro location found
    have own : location = .ofUInt64 7 := Option.some.inj (found.symm.trans rfl)
    have resolved : openGate.host.module? (.ofUInt64 7) = some hermitModule := rfl
    rw [own, resolved]
    rfl
  have chosen : Option.or (some hermit) openGate.entry = some hermit := rfl
  have matched := (isolated_without_call isolated code chosen ⟨0⟩ []).1
  exact ⟨by decide +kernel, rfl, matched.observations, matched.isolated.alike⟩

end Kernel

end RefMonitor
