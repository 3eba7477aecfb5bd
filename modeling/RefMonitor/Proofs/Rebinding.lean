import RefMonitor.Proofs.Mediation
import RefMonitor.Proofs.Nesting
import RefMonitor.Proofs.Soundness

set_option autoImplicit false

namespace RefMonitor

inductive Rebinding where
  | freed
  | taken (location : Location) (held : Held)
  deriving DecidableEq

def Moment.rebinding? (key : Key) (m : Moment) : Option Rebinding :=
  match m.effect?.map Effect.request with
  | some (.delete target) => if key = target then some .freed else none
  | some (.register target location capabilities) =>
    if key = target then some (.taken location (.ofList capabilities)) else none
  | _ => none

def Moment.leaves? : Moment → Option FrameStack
  | .left last _ _ => some last.frames
  | _ => none

namespace Kernel

def judge (k : Kernel) (held? : Option Held) (s : Syscall) : Except Refusal Unit :=
  match held? with
  | none => .error .unknownCaller
  | some held =>
    if !s.wellFormed k.config then .error .malformed
    else match k.targetRefusal? s with
      | some refusal => .error refusal
      | none => (held.authorize (s.request k.entry)).mapError .denied

theorem verdict_eq_judge {k : Kernel} (sound : k.table.Sound) (caller : Key) (s : Syscall) :
    k.verdict caller s = k.judge ((k.table.registration? caller).map Prod.snd) s := by
  cases registered : k.table.registration? caller with
  | none =>
    rw [sound.registration?_eq_none_iff] at registered
    simp [verdict, judge, registered]
  | some registration =>
    obtain ⟨p, found, rfl⟩ := Option.map_eq_some_iff.mp registered
    have known := (sound.contains_iff_lookup caller).mpr ⟨p, found⟩
    simp only [verdict, judge, authorize, known, found, Option.map_some]
    cases p.capabilities.authorize (s.request k.entry) <;> rfl

inductive Rebinds (key : Key) (k : Kernel) : List Moment → Kernel → Prop where
  | kept {moments : List Moment} {next : Kernel}
      (silent : ∀ m ∈ moments, m.rebinding? key = none)
      (same : next.table.registration? key = k.table.registration? key) :
      Rebinds key k moments next
  | freed {m : Moment} {next : Kernel} (told : m.rebinding? key = some .freed)
      (free : next.table.registration? key = none) : Rebinds key k [m] next
  | taken {m : Moment} {next : Kernel} {location : Location} {held : Held}
      (told : m.rebinding? key = some (.taken location held))
      (free : k.table.registration? key = none)
      (registered : next.table.registration? key = some (location, held)) : Rebinds key k [m] next

namespace Rebinds

variable {key : Key} {k next : Kernel} {moments : List Moment} {m : Moment}

theorem registered {registration : Location × Held} (rebinds : Rebinds key k moments next)
    (unfreed : ∀ m ∈ moments, m.rebinding? key ≠ some .freed)
    (before : k.table.registration? key = some registration) :
    next.table.registration? key = some registration := by
  cases rebinds with
  | kept silent same => rw [same, before]
  | freed told => exact absurd told (unfreed _ (List.mem_singleton_self _))
  | taken told free =>
    rw [free] at before
    cases before

theorem free (rebinds : Rebinds key k moments next)
    (untaken : ∀ m ∈ moments, ∀ location held, m.rebinding? key ≠ some (.taken location held))
    (before : k.table.registration? key = none) : next.table.registration? key = none := by
  cases rebinds with
  | kept silent same => rw [same, before]
  | freed told free => exact free
  | taken told => exact absurd told (untaken _ (List.mem_singleton_self _) _ _)

theorem free_of_freed (rebinds : Rebinds key k [m] next) (freed : m.rebinding? key = some .freed) :
    next.table.registration? key = none := by
  cases rebinds with
  | kept silent =>
    rw [silent m (List.mem_singleton_self _)] at freed
    cases freed
  | freed told free => exact free
  | taken told =>
    rw [told] at freed
    cases freed

theorem registered_of_taken (rebinds : Rebinds key k [m] next) {location : Location} {held : Held}
    (taken : m.rebinding? key = some (.taken location held)) :
    next.table.registration? key = some (location, held) := by
  cases rebinds with
  | kept silent =>
    rw [silent m (List.mem_singleton_self _)] at taken
    cases taken
  | freed told =>
    rw [told] at taken
    cases taken
  | taken told free registered =>
    rw [told] at taken
    cases taken
    exact registered

end Rebinds

end Kernel

variable {base : FrameStack} {origin : Origin} {k last : Kernel} {journal : List Moment} {key : Key}

theorem Step.rebinds {next : Kernel} {moments : List Moment}
    (step : Step base origin k moments next) (sound : k.table.Sound) (key : Key) :
    Kernel.Rebinds key k moments next := by
  cases step with
  | root | unroot => exact .kept (by simp) rfl
  | watch still own inert calm => exact .kept (by simp [Moment.rebinding?, inert]) rfl
  | leave => exact .kept (by simp [Moment.rebinding?, Moment.effect?]) rfl
  | enter admitted prepared =>
    obtain ⟨frames, pushed, rfl⟩ := Kernel.prepare_ok prepared
    exact .kept (by simp [Moment.rebinding?, Moment.effect?]) rfl
  | @commit _ caller s acting admitted effective committed =>
    have request : Moment.effect? (.settled next caller s (.ok [])) =
        some ⟨next.frames, caller, s⟩ := by
      simp [Moment.effect?, effective]
    cases Kernel.commits_of_commit committed with
    | write | log | call | setEntry => exact .kept (by simp [Moment.rebinding?, request]) rfl
    | @delete target removed table deleted =>
      have now := Table.registration?_delete sound deleted key
      by_cases named : key = target
      · rw [if_pos named] at now
        exact .freed (by simp [Moment.rebinding?, request, named]) now
      · rw [if_neg named] at now
        exact .kept (by simp [Moment.rebinding?, request, named]) now
    | @register target location capabilities index table created =>
      have now := Table.registration?_create sound created key
      by_cases named : key = target
      · have free := (sound.registration?_eq_none_iff key).mpr
          (named ▸ ((Table.create_eq_ok_iff ..).mp created).2.1)
        rw [if_pos named] at now
        exact .taken (by simp [Moment.rebinding?, request, named]) free now
      · rw [if_neg named] at now
        exact .kept (by simp [Moment.rebinding?, request, named]) now

namespace Trace

theorem sound (trace : Trace base origin k journal last) (sound : k.table.Sound) :
    last.table.Sound :=
  (trace.invariant (fun step sound => step.changes.sound sound) sound).1

theorem kept {told : Moment → Prop} {registration? : Option (Location × Held)}
    (keeps : ∀ {k next : Kernel} {moments : List Moment}, Kernel.Rebinds key k moments next →
      (∀ m ∈ moments, told m) → k.table.registration? key = registration? →
      next.table.registration? key = registration?)
    (trace : Trace base origin k journal last) (sound : k.table.Sound)
    (tells : ∀ m ∈ journal, told m) (before : k.table.registration? key = registration?) :
    last.table.registration? key = registration? := by
  let P (now : Kernel) := now.table.Sound ∧ now.table.registration? key = registration?
  have step_keeps {now next : Kernel} {moments : List Moment}
      (step : Step base origin now moments next) (tells : ∀ m ∈ moments, told m) (here : P now) :
      P next :=
    ⟨step.changes.sound here.1, keeps (step.rebinds here.1 key) tells here.2⟩
  exact (trace.invariant_told step_keeps tells ⟨sound, before⟩).1.2

variable {first rest : List Moment} {m : Moment}

theorem free_of_freed (trace : Trace base origin k (first ++ m :: rest) last)
    (sound : k.table.Sound) (freed : m.rebinding? key = some .freed)
    (untaken : ∀ m ∈ rest, ∀ location held, m.rebinding? key ≠ some (.taken location held)) :
    last.table.registration? key = none := by
  obtain ⟨now, next, earlier, step, later⟩ := trace.split rfl
  have before := earlier.sound sound
  have gone := (step.rebinds before key).free_of_freed freed
  exact later.kept Kernel.Rebinds.free (step.changes.sound before) untaken gone

theorem registered_of_taken (trace : Trace base origin k (first ++ m :: rest) last)
    (sound : k.table.Sound) {location : Location} {held : Held}
    (taken : m.rebinding? key = some (.taken location held))
    (unfreed : ∀ m ∈ rest, m.rebinding? key ≠ some .freed) :
    last.table.registration? key = some (location, held) := by
  obtain ⟨now, next, earlier, step, later⟩ := trace.split rfl
  have before := earlier.sound sound
  have registered := (step.rebinds before key).registered_of_taken taken
  exact later.kept Kernel.Rebinds.registered (step.changes.sound before) unfreed registered

end Trace

def Decided (_ : List Moment) : Moment → List Moment → Prop
  | .attempted now caller s verdict, after => verdict = now.verdict caller s ∧
      ∀ refusal, verdict = .error refusal → ∃ rest, after =
        .settled now caller s (.error (.rejected s.operation refusal.rejection)) :: rest
  | _, _ => True

theorem Decided.grows {before after : List Moment} {m : Moment} (earlier later : List Moment)
    (decided : Decided before m after) : Decided (earlier ++ before) m (after ++ later) := by
  cases m with
  | attempted now caller s verdict =>
    refine ⟨decided.1, ?_⟩
    intro refusal refused
    obtain ⟨rest, rfl⟩ := decided.2 refusal refused
    exact ⟨rest ++ later, rfl⟩
  | registered | appointed | unanswered | settled | blocked | entered | left | asked | noted =>
    trivial

theorem Activity.decided {self : Key} (activity : Activity self k journal last) :
    Throughout Decided journal := by
  have admits {now : Kernel} {caller : Key} {s : Syscall} {rest : List Moment}
      (admitted : now.verdict caller s = .ok ()) :
      Decided [] (.attempted now caller s (.ok ())) rest :=
    ⟨admitted.symm, by simp⟩
  induction activity with
  | done => exact .nil
  | ask _ ih | note _ ih => exact .cons Decided.grows trivial ih
  | refuse refused _ ih =>
    refine .cons Decided.grows ⟨refused.symm, ?_⟩ (.cons Decided.grows trivial ih)
    intro refusal same
    cases same
    exact ⟨_, rfl⟩
  | fail admitted _ _ ih | commit admitted _ _ _ ih =>
    exact .cons Decided.grows (admits admitted) (.cons Decided.grows trivial ih)
  | block admitted _ _ ih =>
    exact .cons Decided.grows (admits admitted)
      (.cons Decided.grows trivial (.cons Decided.grows trivial ih))
  | call admitted _ _ _ within_ih ih =>
    refine .cons Decided.grows (admits admitted) (.cons Decided.grows trivial ?_)
    exact .append Decided.grows within_ih
      (.cons Decided.grows trivial (.cons Decided.grows trivial ih))

namespace Kernel

theorem Started.decided {external : Option Key} {r : Run Outcome}
    (started : k.Started external r) : Throughout Decided r.journal := by
  have single {m : Moment} (here : Decided [] m []) : Throughout Decided [m] :=
    .cons Decided.grows here .nil
  cases started with
  | dispatch caller s => exact (k.dispatch_activity caller s).decided
  | invoke target selector payload =>
    have entry := k.invoke_entry target selector payload
    generalize k.invoke target selector payload = r at entry
    rcases entry with ⟨-, rfl⟩ | ⟨t, -, -, entry⟩
    · exact single trivial
    · cases entry with
      | blocked => exact single trivial
      | ran prepared within =>
        exact .cons Decided.grows trivial (.append Decided.grows within.decided (single trivial))

/-- The module that got control with `inside` is the one that acts `now`: the frames are the same,
and it has not given control back since. -/
structure StillActive (inside : Kernel) (since : List Moment) (now : Kernel) : Prop where
  same : now.frames = inside.frames
  running : ∀ m ∈ since, m.leaves? ≠ some inside.frames

theorem lookup_of_prepare {k inside : Kernel} {caller : Option Key} {callee : Key}
    {module : Module} {frame : Frame}
    (prepared : k.prepare caller callee = .ok (module, frame, inside)) :
    ∃ p, inside.table.lookup callee = some p := by
  have prepares := k.prepares caller callee
  rw [prepared] at prepares
  cases prepares with
  | ready found resolved pushed => exact ⟨_, found⟩

end Kernel

theorem Step.entered {next inside : Kernel} {frame : Frame} {selector : Selector} {payload : Bytes}
    (step : Step base origin k [.entered inside frame selector payload] next) :
    next = inside ∧ ∃ caller callee module,
      k.prepare caller callee = .ok (module, frame, inside) := by
  cases step with
  | watch still own inert calm => cases calm
  | enter admitted prepared => exact ⟨rfl, _, _, _, prepared⟩

theorem Step.attempted {next now : Kernel} {caller : Key} {s : Syscall}
    {verdict : Except Refusal Unit}
    (step : Step base origin k [.attempted now caller s verdict] next) :
    now = k ∧ k.actor? base origin = some caller := by
  cases step with
  | watch still own inert calm => exact ⟨still now rfl, own caller rfl⟩

namespace Kernel

/-- A syscall consults what is registered under the name of its activation: the capabilities it was
entered with until the procedure is deleted, then none, and after a new registration the new
ones. -/
theorem activation_follows_name {k : Kernel} {external : Option Key} {r : Run Outcome}
    (sound : k.table.Sound) (idle : k.frames = .empty) (started : k.Started external r)
    {before since later : List Moment} {inside now : Kernel} {frame : Frame} {selector : Selector}
    {payload : Bytes} {caller : Key} {s : Syscall} {verdict : Except Refusal Unit}
    (cut : r.journal = before ++ .entered inside frame selector payload ::
      (since ++ .attempted now caller s verdict :: later))
    (active : StillActive inside since now) :
    caller = frame.callee ∧ ∃ p, inside.table.lookup caller = some p ∧
      ((∀ m ∈ since, m.rebinding? caller ≠ some .freed) →
        verdict = now.judge (some p.capabilities) s) ∧
      (∀ first m rest, since = first ++ m :: rest → m.rebinding? caller = some .freed →
        (∀ x ∈ rest, ∀ location held, x.rebinding? caller ≠ some (.taken location held)) →
        verdict = .error .unknownCaller ∧ ∃ tail, later =
          .settled now caller s (.error (.rejected s.operation .unknownCaller)) :: tail) ∧
      ∀ first m rest location held, since = first ++ m :: rest →
        m.rebinding? caller = some (.taken location held) →
        (∀ x ∈ rest, x.rebinding? caller ≠ some .freed) → verdict = now.judge (some held) s := by
  have regroup : r.journal = (before ++ .entered inside frame selector payload :: since) ++
      .attempted now caller s verdict :: later := by
    simp [cut]
  have decided : Decided _ (.attempted now caller s verdict) later :=
    started.decided _ _ later regroup
  obtain ⟨origin, -, trace⟩ := started.traced
  rw [idle, Run.Traced, cut] at trace
  obtain ⟨outside, _, earlier, enter, from_entry⟩ := trace.split rfl
  obtain ⟨rfl, _, _, _, prepared⟩ := enter.entered
  obtain ⟨-, entered, innermost, -⟩ := opens_of_prepare prepared
  obtain ⟨p, found⟩ := lookup_of_prepare prepared
  rw [← entered] at found
  have sound_inside := enter.changes.sound (earlier.sound sound)
  obtain ⟨here, _, between, attempt, -⟩ := from_entry.split rfl
  obtain ⟨rfl, acting⟩ := attempt.attempted
  have named : frame.callee = caller := by
    rw [actor?_empty, active.same, innermost] at acting
    exact Option.some.inj acting
  subst named
  have judged := verdict_eq_judge (between.sound sound_inside) frame.callee s
  rw [← decided.1] at judged
  refine ⟨rfl, p, found, ?_, ?_, ?_⟩
  · intro unfreed
    rw [judged, between.kept Rebinds.registered sound_inside unfreed
      (Table.registration?_of_lookup found)]
    rfl
  · rintro first m rest rfl freed untaken
    rw [between.free_of_freed sound_inside freed untaken] at judged
    exact ⟨judged, decided.2 _ judged⟩
  · rintro first m rest location held rfl taken unfreed
    rw [judged, between.registered_of_taken sound_inside taken unfreed]
    rfl

-- An heir that calls its regent before it writes, and a regent that puts somebody else, who may
-- write more, in the heir's place.
def heir : Key := ⟨[104, 101], by simp, by simp⟩

def regent : Key := ⟨[114], by simp, by simp⟩

def heirModule : Module := fun selector payload =>
  .syscall (.call regent selector payload) fun _ =>
    .syscall (.write (.ofUInt64 1) (.ofUInt64 7)) fun outcome =>
      .done (outcome.mapError Failure.code)

def regentModule : Module := fun _ _ =>
  .syscall (.delete heir) fun _ =>
    .syscall (.register heir (.ofUInt64 9) [.write .zero (.ofUInt64 10)]) fun outcome =>
      .done (outcome.mapError Failure.code)

def succession : Kernel where
  table := Table.history [.create heir (.ofUInt64 7) [.call [regent]],
    .create regent (.ofUInt64 8) [.delete [], .register [], .write .zero (.ofUInt64 10)]]
  entry := none
  frames := .empty
  config := {}
  host := (Host.empty.install (.ofUInt64 7) heirModule).install (.ofUInt64 8) regentModule

def bequest : Held := .ofList [.write .zero (.ofUInt64 10)]

def deed : Syscall := .write (.ofUInt64 1) (.ofUInt64 7)

theorem heir_replaced : ∃ inside since now later,
    (succession.invoke (some heir) ⟨0⟩ []).journal = [] ++ .entered inside ⟨none, heir, 0⟩ ⟨0⟩ [] ::
      (since ++ .attempted now heir deed (.ok ()) :: later) ∧
    StillActive inside since now ∧
    inside.table.lookup heir = some ⟨heir, 1, .ofUInt64 7, .ofList [.call [regent]]⟩ ∧
    (∃ m ∈ since, m.rebinding? heir = some .freed) ∧
    ∃ first m rest, since = first ++ m :: rest ∧
      m.rebinding? heir = some (.taken (.ofUInt64 9) bequest) ∧
      ∀ x ∈ rest, x.rebinding? heir ≠ some .freed := by
  refine ⟨_, [_, _, _, _, _, _, _, _], _, _, rfl, ⟨rfl, ?_⟩, rfl, ?_, [_, _, _, _, _], _, [_, _],
    rfl, rfl, ?_⟩
  all_goals decide +kernel

theorem activation_follows_name_succession :
    ∃ inside since now later, (succession.invoke (some heir) ⟨0⟩ []).journal =
        [] ++ .entered inside ⟨none, heir, 0⟩ ⟨0⟩ [] ::
          (since ++ .attempted now heir deed (.ok ()) :: later) ∧
      StillActive inside since now ∧ now.judge (some bequest) deed = .ok () := by
  obtain ⟨inside, since, now, later, cut, active, -, -, first, m, rest, parts, taken, unfreed⟩ :=
    heir_replaced
  have sound : succession.table.Sound := (Table.intact_history _).sound
  obtain ⟨-, p, -, -, -, replaced⟩ :=
    activation_follows_name sound rfl (.invoke (some heir) ⟨0⟩ []) cut active
  have judged := replaced first m rest (.ofUInt64 9) bequest parts taken unfreed
  exact ⟨inside, since, now, later, cut, active, judged.symm⟩

end Kernel

-- What would keep an activation from ever acting under a registration that is not its own.
def Run.ActsAsEntered (r : Run Outcome) : Prop :=
  ∀ before inside frame selector payload since now caller s verdict later p,
    r.journal = before ++ .entered inside frame selector payload ::
      (since ++ .attempted now caller s verdict :: later) →
    inside.StillActive since now → inside.table.lookup frame.callee = some p →
    ((∀ m ∈ since, m.rebinding? frame.callee ≠ some .freed) →
      verdict = now.judge (some p.capabilities) s) ∧
    ((∃ m ∈ since, m.rebinding? frame.callee = some .freed) → verdict = .error .unknownCaller)

theorem Kernel.succession_not_actsAsEntered :
    ¬ (succession.invoke (some heir) ⟨0⟩ []).ActsAsEntered := by
  intro acts
  obtain ⟨inside, since, now, later, cut, active, found, freed, -⟩ := heir_replaced
  have refused := (acts _ _ _ _ _ _ _ _ _ _ _ _ cut active found).2 freed
  cases refused

end RefMonitor
