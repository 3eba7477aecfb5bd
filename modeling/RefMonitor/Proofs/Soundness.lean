import RefMonitor.Proofs.Checker
import RefMonitor.Proofs.FrameOrder
import RefMonitor.Proofs.Session
import RefMonitor.Proofs.TableHistory

set_option autoImplicit false

namespace RefMonitor

structure Kernel.Consistent (k : Kernel) : Prop where
  sound : k.Sound
  summarized : k.table.Summarized
  faultless : k.violations = []

theorem Step.changes {base : FrameStack} {origin : Origin} {k next : Kernel}
    {moments : List Moment} (step : Step base origin k moments next) :
    k.table.Changes next.table := by
  cases step with
  | watch | root | unroot | leave => exact .kept
  | enter admitted prepared =>
    obtain ⟨frames, pushed, rfl⟩ := Kernel.prepare_ok prepared
    exact .kept
  | commit acting admitted effective committed =>
    cases Kernel.commits_of_commit committed with
    | write | log | call | setEntry => exact .kept
    | delete deleted => exact .deleted deleted
    | register created => exact .created created

namespace Kernel

theorem consistent_of_intact {k : Kernel} (intact : k.table.Intact)
    (disciplined : k.frames.Disciplined) : k.Consistent where
  sound := ⟨intact.sound, disciplined⟩
  summarized := intact.summarized
  faultless := Sound.violations_eq_nil ⟨intact.sound, disciplined⟩

theorem Started.intact {k : Kernel} {external : Option Key} {r : Run Outcome}
    (intact : k.table.Intact) (started : k.Started external r) :
    r.kernel.table.Intact ∧
      ∀ m ∈ r.journal, ∀ now, m.kernel? = some now → now.table.Intact := by
  obtain ⟨origin, -, trace⟩ := started.traced
  exact Trace.invariant (fun step intact => step.changes.intact intact) trace intact

theorem Started.consistent {config : Config} {k : Kernel} {external : Option Key}
    {r : Run Outcome} (intact : k.table.Intact) (limits : k.config = config)
    (idle : k.frames = .empty) (started : k.Started external r) :
    ∀ m ∈ r.journal, ∀ now, m.kernel? = some now → now.Consistent := by
  obtain ⟨actor, within⟩ := started.within limits idle
  intro m member now shown
  have framed := (within m member).framed now shown
  exact consistent_of_intact ((started.intact intact).2 m member now shown)
    framed.stacked.disciplined

theorem Obeys.intact {k next : Kernel} {journal : List Moment} (obeys : Obeys k next journal)
    (intact : k.table.Intact) : next.table.Intact := by
  cases obeys with
  | ran started => exact (started.intact intact).1
  | declined | rehosted => exact intact
  | created made | appointed made => exact Table.Changes.intact (.created made) intact
  | granted given => exact Table.Changes.intact (.granted given) intact

theorem Obeys.consistent {config : Config} {k next : Kernel} {journal : List Moment}
    (obeys : Obeys k next journal) (intact : k.table.Intact)
    (idle : k.frames = .empty ∧ k.config = config) :
    ∀ m ∈ journal, ∀ now, m.kernel? = some now → now.Consistent := by
  cases obeys with
  | ran started => exact started.consistent intact idle.2 idle.1
  | declined | granted | rehosted => simp
  | created | appointed => simp [Moment.kernel?]

theorem session_consistent (host : Host) (config : Config) (commands : List Command) :
    ((ofHost host config).session commands).kernel.Consistent ∧
    ∀ m ∈ ((ofHost host config).session commands).journal, ∀ now, m.kernel? = some now →
      now.Consistent := by
  have start : (ofHost host config).table.Intact ∧
      (ofHost host config).frames = .empty ∧ (ofHost host config).config = config :=
    ⟨⟨.empty, .empty⟩, rfl, rfl⟩
  obtain ⟨⟨intact, idle, limits⟩, during⟩ := session_invariant
    (fun k => k.table.Intact ∧ k.frames = .empty ∧ k.config = config) Consistent (fun _ => True)
    (fun obeys kept _ =>
      ⟨⟨obeys.intact kept.1, obeys.idle kept.2⟩, obeys.consistent kept.1 kept.2⟩)
    start commands (fun _ _ => trivial)
  exact ⟨consistent_of_intact intact (framed_idle limits idle).stacked.disciplined, during⟩

end Kernel

end RefMonitor
