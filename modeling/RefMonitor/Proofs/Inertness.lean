import RefMonitor.Proofs.Calling
import RefMonitor.Proofs.FrameOrder

set_option autoImplicit false

namespace RefMonitor

namespace Moment

structure Orphaned (m : Moment) (now : Kernel) (key : Key) : Prop where
  control : m.control? = some (now, key)
  running : ∀ frame result, m ≠ .left now frame result
  absent : now.table.contains key = false

inductive Futile (now : Kernel) (self : Key) : Moment → Prop where
  | asked {query : Query} : Futile now self (.asked now self query (now.answer self query))
  | noted {remark : Note} : Futile now self (.noted now self remark)
  | attempted {s : Syscall} : Futile now self (.attempted now self s (.error .unknownCaller))
  | refused {s : Syscall} :
      Futile now self (.settled now self s (.error (.rejected s.operation .unknownCaller)))

variable {k now : Kernel} {self key : Key} {m : Moment}

theorem Orphaned.own (orphaned : m.Orphaned now key) (shown : m.kernel? = some k)
    (own : m.actor? = some self) : now = k ∧ key = self := by
  have control := orphaned.control
  rw [control?_of_actor? shown own] at control
  split at control
  next => cases control
  next =>
    cases control
    exact ⟨rfl, rfl⟩

end Moment

namespace Kernel

theorem verdict_of_absent {k : Kernel} {caller : Key} (absent : k.table.contains caller = false)
    (s : Syscall) : k.verdict caller s = .error .unknownCaller := by
  simp [verdict, absent]

structure Expires (now : Kernel) (key : Key) (frame : Frame) (result : ModuleResult)
    (after tail : List Moment) : Prop where
  futile : ∃ moments, after = moments ++ .left now frame result :: tail ∧
    ∀ m ∈ moments, m.Futile now key
  innermost : now.frames.current? = some frame
  named : frame.callee = key

def HandsOn (now : Kernel) (frame : Frame) (result : ModuleResult) (tail : List Moment) : Prop :=
  ∃ caller selector payload rest, frame.caller = some caller ∧
    tail = .settled { now with frames := now.frames.pop } caller
      (.call frame.callee selector payload) result.outcome :: rest

end Kernel

theorem suffix_append_cases {α : Type} {m : α} {after xs ys : List α}
    (suffix : m :: after <:+ xs ++ ys) :
    m :: after <:+ ys ∨ ∃ rest, after = rest ++ ys ∧ m :: rest <:+ xs := by
  obtain ⟨before, cut⟩ := suffix
  rcases List.append_eq_append_iff.mp cut with ⟨middle, rfl, same⟩ | ⟨middle, rfl, same⟩
  · cases middle with
    | nil =>
      left
      rw [List.nil_append] at same
      exact ⟨[], same⟩
    | cons head rest =>
      cases same
      exact .inr ⟨rest, rfl, List.suffix_append _ _⟩
  · exact .inl ⟨middle, same.symm⟩

open Kernel

variable {k inside middle last now : Kernel} {self callee key : Key} {module : Module}
  {frame : Frame} {result : ModuleResult} {selector : Selector} {payload : Bytes} {m : Moment}
  {journal body after tail : List Moment}

theorem Activity.futile (activity : Activity self k journal last)
    (absent : k.table.contains self = false) :
    last = k ∧ ∀ m ∈ journal, m.Futile k self := by
  induction activity with
  | done => exact ⟨rfl, by simp⟩
  | ask _ ih =>
    obtain ⟨rfl, rest⟩ := ih absent
    exact ⟨rfl, List.forall_mem_cons.mpr ⟨.asked, rest⟩⟩
  | note _ ih =>
    obtain ⟨rfl, rest⟩ := ih absent
    exact ⟨rfl, List.forall_mem_cons.mpr ⟨.noted, rest⟩⟩
  | refuse refused _ ih =>
    rw [verdict_of_absent absent] at refused
    cases refused
    obtain ⟨rfl, rest⟩ := ih absent
    exact ⟨rfl, List.forall_mem_cons.mpr ⟨.attempted, List.forall_mem_cons.mpr ⟨.refused, rest⟩⟩⟩
  | fail admitted | commit admitted | block admitted | call admitted =>
    rw [verdict_of_absent absent] at admitted
    cases admitted

def Lapses (self : Key) (last now : Kernel) (key : Key) (after : List Moment) : Prop :=
  (key = self ∧ last = now ∧ ∀ x ∈ after, x.Futile now key) ∨
    ∃ frame result tail, now.Expires key frame result after tail ∧ now.HandsOn frame result tail

def Fades (self : Key) (last : Kernel) (journal : List Moment) : Prop :=
  ∀ m after now key, m :: after <:+ journal → m.Orphaned now key → Lapses self last now key after

theorem Fades.cons {rest : List Moment}
    (here : ∀ now key, m.Orphaned now key → Lapses self last now key rest)
    (later : Fades self last rest) : Fades self last (m :: rest) := by
  intro x after now key suffix orphaned
  rcases List.suffix_cons_iff.mp suffix with same | suffix
  · cases same
    exact here now key orphaned
  · exact later x after now key suffix orphaned

namespace Moment

theorem Orphaned.lapses (shown : m.kernel? = some k) (own : m.actor? = some self)
    (futile : k.table.contains self = false → last = k ∧ ∀ x ∈ after, x.Futile k self)
    (now : Kernel) (key : Key) (orphaned : m.Orphaned now key) :
    Lapses self last now key after := by
  obtain ⟨rfl, rfl⟩ := orphaned.own shown own
  exact .inl ⟨rfl, futile orphaned.absent⟩

theorem Orphaned.unadmitted {s : Syscall} (admitted : k.verdict self s = .ok ()) (now : Kernel)
    (key : Key) (orphaned : (attempted k self s (.ok ())).Orphaned now key) :
    Lapses self last now key after := by
  obtain ⟨rfl, rfl⟩ := orphaned.own rfl rfl
  rw [verdict_of_absent orphaned.absent] at admitted
  cases admitted

-- A module that gets control has just been found registered.
theorem Orphaned.unentered {caller : Option Key}
    (prepared : k.prepare caller callee = .ok (module, frame, inside)) :
    ¬ (entered inside frame selector payload).Orphaned now key := by
  intro orphaned
  cases orphaned.control
  have absent := orphaned.absent
  have live := contains_of_prepare prepared
  rw [(opens_of_prepare prepared).2.1] at absent
  obtain ⟨frames, -, rfl⟩ := prepare_ok prepared
  rw [live] at absent
  cases absent

theorem Orphaned.unleft : ¬ (left middle frame result).Orphaned now key := by
  intro orphaned
  cases orphaned.control
  exact orphaned.running _ _ rfl

end Moment

open Moment

theorem Activity.span_expires {caller : Option Key}
    (prepared : k.prepare caller callee = .ok (module, frame, inside))
    (within : Activity callee inside body middle) (fades : Fades callee middle body)
    (suffix : m :: after <:+
      .entered inside frame selector payload :: (body ++ .left middle frame result :: tail))
    (orphaned : m.Orphaned now key) :
    m :: after <:+ tail ∨ ∃ f given rest, now.Expires key f given after rest ∧
      (now.HandsOn f given rest ∨ now = middle ∧ f = frame ∧ given = result ∧ rest = tail) := by
  obtain ⟨-, named, innermost, -⟩ := opens_of_prepare prepared
  rcases List.suffix_cons_iff.mp suffix with same | suffix
  · cases same
    exact absurd orphaned (Orphaned.unentered prepared)
  rcases suffix_append_cases suffix with suffix | ⟨rest, rfl, inner⟩
  · rcases List.suffix_cons_iff.mp suffix with same | suffix
    · cases same
      exact absurd orphaned Orphaned.unleft
    · exact .inl suffix
  · rcases fades _ _ _ _ inner orphaned with
      ⟨rfl, rfl, futile⟩ | ⟨f, given, later, expires, handsOn⟩
    · rw [← within.balanced.1] at innermost
      exact .inr ⟨frame, result, tail, ⟨⟨rest, rfl, futile⟩, innermost, named⟩,
        .inr ⟨rfl, rfl, rfl, rfl⟩⟩
    · obtain ⟨moments, rfl, futile⟩ := expires.futile
      obtain ⟨caller, selector', payload', back, called, rfl⟩ := handsOn
      refine .inr ⟨f, given, .settled { now with frames := now.frames.pop } caller
        (.call f.callee selector' payload') given.outcome :: (back ++ .left middle frame result ::
          tail), ⟨⟨moments, by simp, futile⟩, expires.innermost, expires.named⟩, .inl ?_⟩
      exact ⟨caller, selector', payload', _, called, rfl⟩

theorem Activity.fades (activity : Activity self k journal last)
    (inside : k.frames.isEmpty = false) : Fades self last journal := by
  induction activity with
  | done =>
    intro m after now key suffix
    simp at suffix
  | ask later ih | note later ih => exact .cons (Orphaned.lapses rfl rfl later.futile) (ih inside)
  | refuse refused later ih =>
    refine .cons (Orphaned.lapses rfl rfl ?_)
      (.cons (Orphaned.lapses rfl rfl later.futile) (ih inside))
    intro absent
    obtain ⟨same, futile⟩ := (Activity.refuse refused later).futile absent
    exact ⟨same, (List.forall_mem_cons.mp futile).2⟩
  | fail admitted failed later ih =>
    exact .cons (Orphaned.unadmitted admitted)
      (.cons (Orphaned.lapses rfl rfl later.futile) (ih inside))
  | commit admitted effective committed later ih =>
    rw [← (Kernel.commit_ok committed).1] at inside
    exact .cons (Orphaned.unadmitted admitted)
      (.cons (Orphaned.lapses rfl rfl later.futile) (ih inside))
  | block admitted blocked later ih =>
    refine .cons (Orphaned.unadmitted admitted) (.cons ?_
      (.cons (Orphaned.lapses rfl rfl later.futile) (ih inside)))
    intro now key orphaned
    cases orphaned.control
  | @call self target k inner middle last selector payload module frame result body rest admitted
      prepared within later within_ih ih =>
    refine .cons (Orphaned.unadmitted admitted) ?_
    intro m after now key suffix orphaned
    obtain ⟨caller, named, innermost, below⟩ := opens_of_prepare prepared
    have occupied : inner.frames.isEmpty = false := FrameStack.occupied innermost
    rcases within.span_expires prepared (within_ih occupied) suffix orphaned with
      suffix | ⟨f, given, back, expires, handsOn | ⟨rfl, rfl, rfl, rfl⟩⟩
    · -- The callee has come back.
      exact Fades.cons (Orphaned.lapses rfl rfl later.futile) (ih inside) m after now key suffix
        orphaned
    · exact .inr ⟨f, given, back, expires, handsOn⟩
    · rw [← within.balanced.1, grounded_inside inside] at below
      refine .inr ⟨f, given, _, expires, self, selector, payload, rest, caller, ?_⟩
      rw [named, below]

namespace Kernel

variable {external : Option Key} {r : Run Outcome}

inductive Delivers (k : Kernel) (external : Option Key) (r : Run Outcome) (now : Kernel)
    (frame : Frame) (result : ModuleResult) : List Moment → Prop where
  | invoked (uncalled : frame.caller = none) (outside : external = none)
      (value : r.value = result.outcome)
      (kernel : r.kernel = { now with frames := now.frames.pop }) :
      Delivers k external r now frame result []
  | dispatched {caller : Key} {selector : Selector} {payload : Bytes}
      (called : frame.caller = some caller) (outside : external = some caller)
      (value : r.value = result.outcome) (kernel : r.kernel = { now with frames := k.frames })
      (below : now.frames.pop = (k.grounded caller).frames) :
      Delivers k external r now frame result
        [.settled r.kernel caller (.call frame.callee selector payload) result.outcome]
  | called {caller : Key} {selector : Selector} {payload : Bytes} {rest : List Moment}
      (called : frame.caller = some caller) :
      Delivers k external r now frame result
        (.settled { now with frames := now.frames.pop } caller
          (.call frame.callee selector payload) result.outcome :: rest)

theorem HandsOn.delivers (handsOn : now.HandsOn frame result tail) :
    k.Delivers external r now frame result tail := by
  obtain ⟨caller, selector, payload, rest, called, rfl⟩ := handsOn
  exact .called called

variable {target : Option Key} {caller : Key} {s : Syscall}

theorem invoke_delivers (suffix : m :: after <:+ (k.invoke target selector payload).journal)
    (orphaned : m.Orphaned now self) :
    ∃ frame result tail, now.Expires self frame result after tail ∧
      k.Delivers none (k.invoke target selector payload) now frame result tail := by
  have entry := k.invoke_entry target selector payload
  generalize k.invoke target selector payload = r at entry suffix
  rcases entry with ⟨-, rfl⟩ | ⟨t, -, -, entry⟩
  · rcases List.suffix_cons_iff.mp suffix with same | suffix
    · cases same
      cases orphaned.control
    · simp at suffix
  cases entry with
  | blocked =>
    rcases List.suffix_cons_iff.mp suffix with same | suffix
    · cases same
      cases orphaned.control
    · simp at suffix
  | @ran module frame inside middle body result prepared within =>
    obtain ⟨uncalled, -, innermost, below⟩ := opens_of_prepare prepared
    have fades := within.fades (FrameStack.occupied innermost)
    rcases within.span_expires prepared fades suffix orphaned with
      suffix | ⟨f, given, back, expires, handsOn | ⟨rfl, rfl, rfl, rfl⟩⟩
    · simp at suffix
    · exact ⟨f, given, back, expires, handsOn.delivers⟩
    · rw [← within.balanced.1] at below
      refine ⟨f, given, [], expires, .invoked uncalled rfl rfl ?_⟩
      rw [below]

theorem dispatch_delivers (suffix : m :: after <:+ (k.dispatch caller s).journal)
    (orphaned : m.Orphaned now self) (active : now.frames ≠ k.frames) :
    ∃ frame result tail, now.Expires self frame result after tail ∧
      k.Delivers (some caller) (k.dispatch caller s) now frame result tail := by
  have outside {next : Kernel} (shown : m.kernel? = some next) (own : m.actor? = some caller)
      (same : next.frames = k.frames) : False := by
    obtain ⟨rfl, -⟩ := orphaned.own shown own
    exact active same
  have run := dispatchWith_budget k caller s
  have balanced := (dispatchWith_balanced (enterWithin_balanced _) run).1
  generalize k.dispatch caller s = r at run balanced suffix
  obtain ⟨inner, performs, rfl⟩ := performs_of_dispatchWith run
  have unsettled : ¬ m :: after <:+ [.settled inner.kernel caller s inner.value] := by
    intro suffix
    rcases List.suffix_cons_iff.mp suffix with same | suffix
    · cases same
      exact outside rfl rfl balanced
    · simp at suffix
  rcases List.suffix_cons_iff.mp suffix with same | suffix
  · cases same
    exact (outside rfl rfl rfl).elim
  cases performs with
  | refused | failed | committed => exact absurd suffix unsettled
  | called admitted calls =>
    obtain ⟨entered, enters, rfl⟩ := calls.from_grounded (enterWithin_balanced _)
    cases enterWithin_nests _ _ _ _ _ _ _ enters with
    | blocked =>
      rcases List.suffix_cons_iff.mp suffix with same | suffix
      · cases same
        cases orphaned.control
      · exact absurd suffix unsettled
    | @ran module frame inside middle body result prepared within =>
      obtain ⟨called, rfl, innermost, below⟩ := opens_of_prepare prepared
      rw [List.cons_append, List.append_assoc] at suffix
      rcases within.span_expires prepared (within.fades (FrameStack.occupied innermost)) suffix
        orphaned with suffix | ⟨f, given, back, expires, handsOn | ⟨rfl, rfl, rfl, rfl⟩⟩
      · exact absurd suffix unsettled
      · exact ⟨f, given, back, expires, handsOn.delivers⟩
      · rw [← within.balanced.1] at below
        exact ⟨f, given, _, expires, .dispatched called rfl rfl rfl below⟩

/-- A procedure that has control without being registered is inert, but its result is delivered as
that of any other. -/
theorem orphan_inert (started : k.Started external r) {before : List Moment}
    (cut : r.journal = before ++ m :: after) (orphaned : m.Orphaned now self)
    (active : now.frames ≠ k.frames) :
    (∀ code : Program, (code.perform self now).kernel = now ∧
      ∀ x ∈ (code.perform self now).journal, x.Futile now self) ∧
    ∃ moments frame result tail, after = moments ++ .left now frame result :: tail ∧
      (∀ x ∈ moments, x.Futile now self) ∧ now.frames.current? = some frame ∧
      frame.callee = self ∧ k.Delivers external r now frame result tail := by
  constructor
  · intro code
    exact (code.perform_activity self now).futile orphaned.absent
  · have suffix : m :: after <:+ r.journal := ⟨before, cut.symm⟩
    suffices ∃ frame result tail, now.Expires self frame result after tail ∧
        k.Delivers external r now frame result tail by
      obtain ⟨frame, result, tail, expires, delivers⟩ := this
      obtain ⟨moments, parts, futile⟩ := expires.futile
      exact ⟨moments, frame, result, tail, parts, futile, expires.innermost, expires.named,
        delivers⟩
    cases started with
    | invoke target selector payload => exact invoke_delivers suffix orphaned
    | dispatch caller s => exact dispatch_delivers suffix orphaned active

-- A monarch that deletes itself, tries to write all the same, and leaves a legacy.
def monarch : Key := ⟨[109, 111, 110], by simp, by simp⟩

def chamberlain : Key := ⟨[99, 104], by simp, by simp⟩

def monarchModule : Module := fun _ _ =>
  .syscall (.delete monarch) fun _ =>
    .syscall (.write (.ofUInt64 1) (.ofUInt64 5)) fun _ => .done (.ok [7])

def abdication : Kernel where
  table := Table.history [.create chamberlain (.ofUInt64 1) [.call [monarch]],
    .create monarch (.ofUInt64 2) [.delete [monarch], .write .zero (.ofUInt64 9)]]
  entry := some chamberlain
  frames := .empty
  config := {}
  host := (Host.empty.install (.ofUInt64 1)
    fun selector payload => .forward (.call monarch selector payload)).install (.ofUInt64 2)
      monarchModule

example : (abdication.invoke none ⟨0⟩ []).value = .ok [7] := by rfl

theorem orphan_inert_abdication : ∃ before now after moments result tail,
    (abdication.invoke none ⟨0⟩ []).journal =
      before ++ .settled now monarch (.delete monarch) (.ok []) :: after ∧
    now.table.contains monarch = false ∧
    after = moments ++ .left now ⟨some chamberlain, monarch, 1⟩ result :: tail ∧
    (∀ x ∈ moments, x.Futile now monarch) ∧
    abdication.Delivers none (abdication.invoke none ⟨0⟩ []) now ⟨some chamberlain, monarch, 1⟩
      result tail := by
  have parts : ∃ before now after, (abdication.invoke none ⟨0⟩ []).journal =
        before ++ .settled now monarch (.delete monarch) (.ok []) :: after ∧
      now.table.contains monarch = false ∧
      now.frames = ⟨[⟨some chamberlain, monarch, 1⟩, ⟨none, chamberlain, 0⟩]⟩ :=
    ⟨[_, _, _, _], _, _, rfl, rfl, rfl⟩
  obtain ⟨before, now, after, cut, absent, frames⟩ := parts
  have orphaned : (Moment.settled now monarch (.delete monarch) (.ok [])).Orphaned now monarch := by
    refine ⟨?_, by simp, absent⟩
    simp [Moment.control?, frames, FrameStack.isEmpty]
  have active : now.frames ≠ abdication.frames := by
    rw [frames]
    decide
  obtain ⟨-, moments, frame, result, tail, rest, futile, innermost, -, delivers⟩ :=
    orphan_inert (.invoke none ⟨0⟩ []) cut orphaned active
  rw [frames] at innermost
  cases innermost
  exact ⟨before, now, after, moments, result, tail, cut, absent, rest, futile, delivers⟩

end Kernel

end RefMonitor
