import RefMonitor.Proofs.Activity
import RefMonitor.Proofs.Rejection
import RefMonitor.Proofs.Soundness

set_option autoImplicit false

namespace RefMonitor

def Moment.redirectsAlive : Moment → Bool
  | .settled now _ (.setEntry target) (.ok _) => now.table.contains target
  | _ => true

namespace Kernel

def EntryLive (k : Kernel) : Prop :=
  ∃ target, k.entry = some target ∧ k.table.contains target = true

structure Anchored (k : Kernel) : Prop where
  sound : k.table.Sound
  live : k.EntryLive

inductive EntryBlocked (k : Kernel) : Rejection → Prop where
  | noModule {target : Key} {p : Procedure} (entry : k.entry = some target)
      (found : k.table.lookup target = some p) (missing : k.host.module? p.location = none) :
      EntryBlocked k .notFound
  | tooDeep {target : Key} {p : Procedure} (entry : k.entry = some target)
      (found : k.table.lookup target = some p) (full : k.config.maxCallDepth < k.frames.length) :
      EntryBlocked k .callDepthExceeded

end Kernel

theorem Step.anchored {base : FrameStack} {origin : Origin} {k next : Kernel}
    {moments : List Moment} (step : Step base origin k moments next)
    (redirects : ∀ m ∈ moments, m.redirectsAlive = true) (anchored : k.Anchored) :
    next.Anchored := by
  obtain ⟨sound, live⟩ := anchored
  refine ⟨step.changes.sound sound, ?_⟩
  cases step with
  | watch | root | unroot | leave => exact live
  | enter admitted prepared =>
    obtain ⟨frames, pushed, rfl⟩ := Kernel.prepare_ok prepared
    exact live
  | commit acting admitted effective committed =>
    obtain ⟨entry, named, present⟩ := live
    cases Kernel.commits_of_commit committed with
    | write | log | call => exact ⟨entry, named, present⟩
    | @setEntry target => exact ⟨target, rfl, redirects _ (List.mem_singleton_self _)⟩
    | register created =>
      exact ⟨entry, named, (sound.contains_create created entry).mpr (.inr present)⟩
    | @delete target removed table deleted =>
      -- The entry itself is protected from deletion.
      have other : entry ≠ target := by
        rintro rfl
        have resolved := (Kernel.verdict_ok_iff.mp admitted).2.2.1
        simp [Kernel.targetRefusal?, named] at resolved
      exact ⟨entry, named, (sound.contains_delete deleted entry).mpr ⟨other, present⟩⟩

namespace Kernel

theorem Anchored.invoke_rejected {k : Kernel} (anchored : k.Anchored) {selector : Selector}
    {payload : Bytes} {op : Operation} {kind : Rejection}
    (rejected : (k.invoke none selector payload).value = .error (.rejected op kind)) :
    op = .call ∧ k.EntryBlocked kind := by
  obtain ⟨sound, entry, named, present⟩ := anchored
  rcases k.invoke_entry none selector payload with ⟨unanswered, -⟩ | ⟨t, chosen, -, entered⟩
  · rw [unanswered entry named] at present
    cases present
  · rw [Option.none_or, named] at chosen
    cases chosen
    generalize k.invoke none selector payload = r at rejected entered
    cases entered with
    | ran => exact absurd rejected (ModuleResult.outcome_ne_rejected _ op kind)
    | blocked blocked =>
      cases rejected
      refine ⟨rfl, ?_⟩
      have prepares := k.prepares none entry
      rw [blocked] at prepares
      cases prepares with
      | unregistered absent =>
        obtain ⟨p, found⟩ := (sound.contains_iff_lookup entry).mp present
        rw [absent] at found
        cases found
      | noModule found missing => exact .noModule named found missing
      | tooDeep found resolved full =>
        exact .tooDeep named found (FrameStack.length_of_push_error full)

theorem Started.anchored {k : Kernel} {external : Option Key} {r : Run Outcome}
    (anchored : k.Anchored) (started : k.Started external r)
    (redirects : ∀ m ∈ r.journal, m.redirectsAlive = true) :
    r.kernel.Anchored ∧ ∀ m ∈ r.journal, ∀ now, m.kernel? = some now → now.Anchored := by
  obtain ⟨origin, -, trace⟩ := started.traced
  exact trace.invariant_told Step.anchored redirects anchored

theorem Obeys.anchored {k next : Kernel} {journal : List Moment} (obeys : Obeys k next journal)
    (anchored : k.Anchored) (redirects : ∀ m ∈ journal, m.redirectsAlive = true) :
    next.Anchored ∧ ∀ m ∈ journal, ∀ now, m.kernel? = some now → now.Anchored := by
  have ⟨sound, entry, named, present⟩ := anchored
  cases obeys with
  | ran started => exact started.anchored anchored redirects
  | declined | rehosted => exact ⟨⟨sound, entry, named, present⟩, by simp⟩
  | created made =>
    have still := (sound.contains_create made entry).mpr (.inr present)
    exact ⟨⟨sound.create made, entry, named, still⟩, by simp [Moment.kernel?]⟩
  | @appointed key _ _ _ _ made =>
    have appointed := (sound.contains_create made key).mpr (.inl rfl)
    exact ⟨⟨sound.create made, key, rfl, appointed⟩, by simp [Moment.kernel?]⟩
  | granted given =>
    refine ⟨⟨sound.addCapability given, entry, named, ?_⟩, by simp⟩
    rw [Table.contains, Table.positions_addCapability given]
    exact present

/-- As long as the entry is only ever set to procedures that are registered at that moment, an
invocation without a target is never refused on its account. -/
theorem entry_never_stranded {k : Kernel} (sound : k.table.Sound) (live : k.EntryLive)
    (commands : List Command)
    (redirects : ∀ m ∈ (k.session commands).journal, m.redirectsAlive = true) :
    (∀ done, done <+: commands → (k.session done).kernel.EntryLive ∧
      ∀ selector payload op kind,
        ((k.session done).kernel.invoke none selector payload).value = .error (.rejected op kind) →
        op = .call ∧ (k.session done).kernel.EntryBlocked kind) ∧
    ∀ m ∈ (k.session commands).journal, ∀ now, m.kernel? = some now → now.EntryLive := by
  have keeps (commands : List Command)
      (redirects : ∀ m ∈ (k.session commands).journal, m.redirectsAlive = true) :=
    session_invariant Anchored Anchored (·.redirectsAlive = true) Obeys.anchored ⟨sound, live⟩
      commands redirects
  constructor
  · rintro done ⟨rest, rfl⟩
    rw [session_append] at redirects
    have anchored := (keeps done fun m member => redirects m (List.mem_append_left _ member)).1
    exact ⟨anchored.live, fun _ _ _ _ rejected => anchored.invoke_rejected rejected⟩
  · intro m member now shown
    exact ((keeps commands redirects).2 m member now shown).live

-- An abbot that cannot delete itself while it is the entry, makes its deputy the entry, and then
-- can.
def abbot : Key := ⟨[97], by simp, by simp⟩

def deputy : Key := ⟨[100], by simp, by simp⟩

def lodge : Table where
  records := [⟨abbot, 1, .ofUInt64 7, .ofList [.delete [], .setEntry]⟩]
  positions := Std.ExtTreeMap.empty.insert abbot 0

def abbey : Kernel where
  table := ⟨lodge.records ++ [⟨deputy, 2, .ofUInt64 8, .ofList []⟩],
    lodge.positions.insert deputy 1⟩
  entry := some abbot
  frames := .empty
  config := {}
  host := Host.empty.install (.ofUInt64 7) fun _ _ =>
    .syscall (.delete abbot) fun _ => .syscall (.setEntry deputy) fun _ =>
      .syscall (.delete abbot) fun outcome => .done (outcome.mapError Failure.code)

theorem entry_never_stranded_abbey :
    (abbey.session [.invoke none ⟨0⟩ []]).kernel.table.keys = [deputy] ∧
    (abbey.session [.invoke none ⟨0⟩ []]).kernel.EntryLive := by
  have first : Table.empty.create abbot (.ofUInt64 7) (.ofList [.delete [], .setEntry]) =
      .ok (1, lodge) := rfl
  have second : lodge.create deputy (.ofUInt64 8) (.ofList []) = .ok (2, abbey.table) := rfl
  have sound : abbey.table.Sound := (Table.Sound.empty.create first).create second
  have live : abbey.EntryLive := ⟨abbot, rfl, rfl⟩
  have redirects : ∀ m ∈ (abbey.session [.invoke none ⟨0⟩ []]).journal, m.redirectsAlive = true :=
    List.all_eq_true.mp rfl
  have kept := entry_never_stranded sound live [.invoke none ⟨0⟩ []] redirects
  exact ⟨rfl, (kept.1 _ (List.prefix_refl _)).1⟩

end Kernel

end RefMonitor
