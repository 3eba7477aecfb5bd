import RefMonitor.Proofs.TableInvariant
import RefMonitor.Proofs.Trace

set_option autoImplicit false

namespace RefMonitor

structure Contents where
  table : Table
  entry : Option Key
  storage : Std.ExtTreeMap Word Word
  events : List Event

def Kernel.contents (k : Kernel) : Contents := ⟨k.table, k.entry, k.host.storage, k.host.events⟩

namespace Contents

def change? (c : Contents) : Syscall → Option Contents
  | .write address value => some { c with storage := c.storage.insert address value }
  | .log topics data => some { c with events := c.events ++ [⟨topics, data⟩] }
  | .call .. => some c
  | .delete target =>
    match c.table.delete target with
    | .ok (_, table) => some { c with table }
    | .error _ => none
  | .setEntry target => some { c with entry := some target }
  | .register target location capabilities =>
    match c.table.create target location (.ofList capabilities) with
    | .ok (_, table) => some { c with table }
    | .error _ => none

def replay (c : Contents) (effects : List Effect) : Option Contents :=
  effects.foldlM (fun c e => c.change? e.request) c

theorem replay_append (c : Contents) (first second : List Effect) :
    c.replay (first ++ second) = (c.replay first).bind (·.replay second) := by
  simp [replay, Option.bind_eq_bind]

end Contents

def Run.effects {α : Type} (r : Run α) : List Effect := r.journal.filterMap Moment.effect?

theorem Kernel.change?_of_commit {k next : Kernel} {s : Syscall} (h : k.commit s = .ok next) :
    k.contents.change? s = some next.contents := by
  cases commits_of_commit h with
  | write | log | call | setEntry => rfl
  | delete deleted => simp only [Contents.change?, contents, deleted]
  | register created => simp only [Contents.change?, contents, created]

theorem Kernel.commit_of_verdict {k : Kernel} (sound : k.table.Sound) {caller : Key} {s : Syscall}
    (admitted : k.verdict caller s = .ok ()) : ∃ next, k.commit s = .ok next := by
  obtain ⟨-, formed, resolved, -⟩ := verdict_ok_iff.mp admitted
  cases s with
  | write | log | call | setEntry => exact ⟨_, rfl⟩
  | delete target =>
    have present : k.table.contains target = true := by
      by_cases present : k.table.contains target = true
      · exact present
      · by_cases entry : k.entry = some target <;>
          simp [targetRefusal?, entry, present] at resolved
    obtain ⟨removed, table, deleted⟩ := sound.delete_of_contains present
    exact ⟨{ k with table }, by simp only [commit, deleted]⟩
  | register target location capabilities =>
    have fresh : k.table.contains target = false := by
      simpa [targetRefusal?] using resolved
    have form : target ≠ .null ∧ ∀ c ∈ capabilities, c.Valid := by
      simpa [Syscall.wellFormed, Capability.Valid, Bool.eq_false_iff, Key.isNull_iff] using formed
    have created := (Table.create_eq_ok_iff k.table _ target location (.ofList capabilities) _).mpr
      ⟨form.1, fresh, by simpa using form.2, rfl, rfl⟩
    rw [commit, created]
    exact ⟨_, rfl⟩

variable {base : FrameStack} {origin : Origin}

theorem Step.replay {k next : Kernel} {moments : List Moment}
    (step : Step base origin k moments next) :
    k.contents.replay (moments.filterMap Moment.effect?) = some next.contents := by
  cases step with
  | watch still own inert calm =>
    rw [List.filterMap_cons, inert]
    rfl
  | commit acting admitted effective committed =>
    simp [Moment.effect?, effective, Contents.replay, Kernel.change?_of_commit committed]
  | enter admitted prepared =>
    obtain ⟨frames, pushed, rfl⟩ := Kernel.prepare_ok prepared
    rfl
  | root | unroot | leave => rfl

theorem Trace.replay {k last : Kernel} {journal : List Moment}
    (trace : Trace base origin k journal last) :
    k.contents.replay (journal.filterMap Moment.effect?) = some last.contents := by
  induction trace with
  | nil => rfl
  | cons step later ih =>
    rw [List.filterMap_append, Contents.replay_append, step.replay]
    exact ih

theorem Trace.replay_upto {k last now : Kernel} {before after : List Moment} {m : Moment}
    (trace : Trace base origin k (before ++ m :: after) last) (shown : m.kernel? = some now) :
    k.contents.replay ((before ++ [m]).filterMap Moment.effect?) = some now.contents := by
  obtain ⟨here, next, earlier, step, later⟩ := trace.split rfl
  have done := (earlier.append (.single step)).replay
  rw [done]
  cases step with
  | watch still own inert calm => rw [still now shown]
  | commit acting admitted effective committed =>
    cases shown
    rfl
  | enter admitted prepared =>
    cases shown
    rfl
  | leave innermost =>
    cases shown
    rfl

theorem Trace.mediated {k last : Kernel} {journal : List Moment}
    (trace : Trace base origin k journal last) {earlier later : List Effect} {e : Effect}
    (cut : journal.filterMap Moment.effect? = earlier ++ e :: later) :
    ∃ now : Kernel, k.contents.replay earlier = some now.contents ∧
      now.verdict e.actor e.request = .ok () ∧ e.frames = now.frames ∧
      now.actor? base origin = some e.actor := by
  obtain ⟨before, rest, rfl, rfl, tail⟩ := List.filterMap_eq_append_iff.mp cut
  obtain ⟨quiet, m, after, rfl, silent, effective, -⟩ := List.filterMap_eq_cons_iff.mp tail
  rw [← List.append_assoc] at trace
  obtain ⟨now, next, past, step, -⟩ := trace.split rfl
  have reached := past.replay
  rw [List.filterMap_append, List.filterMap_eq_nil_iff.mpr silent, List.append_nil] at reached
  refine ⟨now, reached, ?_⟩
  cases step with
  | watch still own inert calm => simp [inert] at effective
  | enter admitted prepared => cases effective
  | leave innermost => cases effective
  | commit acting admitted noncall committed =>
    simp only [Moment.effect?, if_neg noncall, Option.some.injEq] at effective
    subst effective
    exact ⟨admitted, (Kernel.commit_ok committed).1, acting⟩

theorem Kernel.actor?_empty (k : Kernel) :
    k.actor? .empty origin = (k.frames.current?.map Frame.callee).or origin.caller? := by
  unfold actor?
  by_cases outside : k.frames = .empty
  · rw [if_pos outside, outside]
    rfl
  · rw [if_neg outside]
    cases frames : k.frames with
    | mk inner =>
      cases inner with
      | nil => exact absurd frames outside
      | cons frame frames => rfl

namespace Kernel

/-- The changes of a run are those of its successful syscalls, with nothing taken back, and each was
admitted in the state that the ones before it lead to. -/
theorem complete_mediation {k : Kernel} {external : Option Key} {r : Run Outcome}
    (idle : k.frames = .empty) (started : k.Started external r) :
    k.contents.replay r.effects = some r.kernel.contents ∧
    (∀ earlier e later, r.effects = earlier ++ e :: later →
      ∃ c procedure, k.contents.replay earlier = some c ∧
        c.table.lookup e.actor = some procedure ∧
        procedure.capabilities.authorize (e.request.request c.entry) = .ok () ∧
        (e.frames.current?.map Frame.callee).or external = some e.actor) ∧
    ∀ before m after now, r.journal = before ++ m :: after → m.kernel? = some now →
      k.contents.replay ((before ++ [m]).filterMap Moment.effect?) = some now.contents := by
  obtain ⟨origin, rfl, trace⟩ := started.traced
  rw [idle] at trace
  refine ⟨trace.replay, ?_, ?_⟩
  · intro earlier e later cut
    obtain ⟨now, reached, admitted, frames, acting⟩ := Trace.mediated trace cut
    obtain ⟨-, -, -, procedure, found, authorized⟩ := verdict_ok_iff.mp admitted
    rw [actor?_empty, ← frames] at acting
    exact ⟨now.contents, procedure, reached, found, authorized, acting⟩
  · intro before m after now cut shown
    rw [Run.Traced, cut] at trace
    exact trace.replay_upto shown

-- A procedure that writes a slot and calls itself once more before it fails.
def scribe : Key := ⟨[115], by simp, by simp⟩

def scribeModule : Module := fun selector payload =>
  .syscall (.write (.ofUInt64 payload.length.toUInt64) (.ofUInt64 7)) fun _ =>
    match payload with
    | [] => .syscall (.call scribe selector [0]) fun _ => .done (.error .reverted)
    | _ :: _ => .done (.error .reverted)

def scriptorium : Kernel where
  table := ⟨[⟨scribe, 1, .ofUInt64 7, .ofList [.write .zero (.ofUInt64 2), .call [scribe]]⟩],
    Std.ExtTreeMap.empty.insert scribe 0⟩
  entry := some scribe
  frames := .empty
  config := {}
  host := Host.empty.install (.ofUInt64 7) scribeModule

theorem complete_mediation_scriptorium :
    (scriptorium.invoke none ⟨0⟩ []).effects.map Effect.request =
      [.write .zero (.ofUInt64 7), .write (.ofUInt64 1) (.ofUInt64 7)] ∧
    scriptorium.contents.replay (scriptorium.invoke none ⟨0⟩ []).effects =
      some (scriptorium.invoke none ⟨0⟩ []).kernel.contents := by
  have idle : scriptorium.frames = .empty := rfl
  have whole := complete_mediation idle (.invoke none ⟨0⟩ [])
  exact ⟨rfl, whole.1⟩

end Kernel

end RefMonitor
