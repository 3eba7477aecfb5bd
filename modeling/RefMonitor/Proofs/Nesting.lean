import RefMonitor.Proofs.FrameOrder
import RefMonitor.Proofs.Session

set_option autoImplicit false

namespace RefMonitor

def Throughout (P : List Moment → Moment → List Moment → Prop) (journal : List Moment) : Prop :=
  ∀ before m after, journal = before ++ m :: after → P before m after

namespace Throughout

variable {P : List Moment → Moment → List Moment → Prop}
  (grows : ∀ {before after : List Moment} {m : Moment} (earlier later : List Moment),
    P before m after → P (earlier ++ before) m (after ++ later))

theorem nil : Throughout P [] := by
  intro before m after cut
  simp at cut

include grows

theorem cons {m : Moment} {rest : List Moment} (here : P [] m rest)
    (later : Throughout P rest) : Throughout P (m :: rest) := by
  intro before x after cut
  cases before with
  | nil =>
    cases cut
    exact here
  | cons first before =>
    injection cut with same tail
    subst same
    simpa using grows [m] [] (later before x after tail)

theorem cons_cons {m n : Moment} {rest : List Moment} (here : P [] m (n :: rest))
    (next : P [m] n rest) (later : Throughout P rest) : Throughout P (m :: n :: rest) := by
  intro before x after cut
  cases before with
  | nil =>
    cases cut
    exact here
  | cons first before =>
    injection cut with same tail
    subst same
    cases before with
    | nil =>
      cases tail
      exact next
    | cons second before =>
      injection tail with same tail
      subst same
      simpa using grows [m, n] [] (later before x after tail)

theorem append {first second : List Moment} (earlier : Throughout P first)
    (later : Throughout P second) : Throughout P (first ++ second) := by
  intro before m after cut
  rcases List.append_eq_append_iff.mp cut with ⟨tail, rfl, rest⟩ | ⟨tail, rfl, rest⟩
  · simpa using grows first [] (later tail m after rest)
  · cases tail with
    | nil => simpa using grows before [] (later [] m after rest.symm)
    | cons head tail =>
      injection rest with same rest
      subst same rest
      simpa using grows [] second (earlier before m tail rfl)

end Throughout

def Frame.CalledAfter (frame : Frame) (selector : Selector) (payload : Bytes)
    (before : List Moment) : Prop :=
  ∃ earlier now caller, frame.caller = some caller ∧
    before = earlier ++ [.attempted now caller (.call frame.callee selector payload) (.ok ())]

-- The module of a frame gives control back with the frames it got it with. Until then it has
-- control in these frames, and any other module only strictly inside them.
def HandsBack (inside : Kernel) (frame : Frame) (after : List Moment) : Prop :=
  ∃ body last result rest, after = body ++ .left last frame result :: rest ∧
    last.frames = inside.frames ∧
    ∀ m ∈ body, ∀ now key, m.control? = some (now, key) →
      now.frames = inside.frames ∧ key = frame.callee ∨ now.frames.Above inside.frames

-- A syscall comes back with the frames it was made in. Until then modules have control only
-- strictly inside them.
def ComesBack (now : Kernel) (caller : Key) (s : Syscall) (after : List Moment) : Prop :=
  ∃ inner back outcome rest, after = inner ++ .settled back caller s outcome :: rest ∧
    back.frames = now.frames ∧
    ∀ m ∈ inner, ∀ inside key, m.control? = some (inside, key) → inside.frames.Above now.frames

def Nested (before : List Moment) : Moment → List Moment → Prop
  | .entered inside frame selector payload, after =>
    inside.frames.current? = some frame ∧ frame.CalledAfter selector payload before ∧
      HandsBack inside frame after
  | .attempted now caller s _, after => ComesBack now caller s after
  | _, _ => True

def Moment.Answered : Moment → Prop
  | .asked now key query answer => answer = now.answer key query
  | _ => True

-- Whoever acts at a moment has control, inside a frame.
def Moment.Inside (m : Moment) : Prop :=
  ∀ key, m.actor? = some key → ∃ now, m.control? = some (now, key)

def Moment.Opened (base : FrameStack) (journal : List Moment) (m : Moment) : Prop :=
  ∀ now key, m.control? = some (now, key) → now.frames = base ∨
    ∃ inside frame selector payload, .entered inside frame selector payload ∈ journal ∧
      inside.frames = now.frames

namespace Moment.Opened

variable {base : FrameStack} {journal body : List Moment} {k inside : Kernel} {m : Moment}

theorem shown (shown : m.kernel? = some k) (same : k.frames = base) : m.Opened base journal := by
  intro now key control
  have seen := kernel?_of_control? control
  rw [shown] at seen
  cases seen
  exact .inl same

theorem mono (opened : m.Opened base body) (sub : body ⊆ journal) : m.Opened base journal := by
  intro now key control
  rcases opened now key control with same | ⟨inside, frame, selector, payload, member, same⟩
  · exact .inl same
  · exact .inr ⟨inside, frame, selector, payload, sub member, same⟩

theorem outward (opened : m.Opened inside.frames journal) {frame : Frame} {selector : Selector}
    {payload : Bytes} (member : .entered inside frame selector payload ∈ journal) :
    m.Opened base journal := by
  intro now key control
  rcases opened now key control with same | later
  · exact .inr ⟨inside, frame, selector, payload, member, same.symm⟩
  · exact .inr later

theorem span (base : FrameStack) {frame : Frame} {selector : Selector} {payload : Bytes}
    {result : ModuleResult} {last : Kernel} (within : ∀ m ∈ body, m.Opened inside.frames body)
    (same : last.frames = inside.frames)
    (sub : .entered inside frame selector payload :: (body ++ [.left last frame result]) ⊆
      journal) :
    ∀ m ∈ .entered inside frame selector payload :: (body ++ [.left last frame result]),
      m.Opened base journal := by
  have first : Moment.entered inside frame selector payload ∈ journal := sub List.mem_cons_self
  have inner : body ⊆ journal := fun x there => sub (by simp [there])
  simp only [List.forall_mem_cons, List.forall_mem_append]
  exact ⟨.outward (.shown rfl rfl) first,
    fun m there => .outward ((within m there).mono inner) first,
    .outward (.shown rfl same) first, by simp⟩

end Moment.Opened

namespace Moment.Inside

variable {k : Kernel} {self : Key} {m : Moment}

theorem own (shown : m.kernel? = some k) (acts : m.actor? = some self)
    (inside : k.frames.isEmpty = false) : m.Inside := by
  intro key same
  rw [acts] at same
  cases same
  exact ⟨k, by simp [control?_of_actor? shown acts, inside]⟩

theorem unowned (nobody : m.actor? = none) : m.Inside := by
  simp [Inside, nobody]

end Moment.Inside

theorem HandsBack.grows {inside : Kernel} {frame : Frame} {after : List Moment}
    (hands : HandsBack inside frame after) (later : List Moment) :
    HandsBack inside frame (after ++ later) := by
  obtain ⟨body, last, result, rest, rfl, same, within⟩ := hands
  exact ⟨body, last, result, rest ++ later, by simp, same, within⟩

theorem Nested.grows {before after : List Moment} {m : Moment} (earlier later : List Moment)
    (nested : Nested before m after) : Nested (earlier ++ before) m (after ++ later) := by
  cases m with
  | entered inside frame selector payload =>
    obtain ⟨innermost, ⟨first, now, caller, called, rfl⟩, hands⟩ := nested
    exact ⟨innermost, ⟨earlier ++ first, now, caller, called, by simp⟩, hands.grows later⟩
  | attempted now caller s verdict =>
    obtain ⟨inner, back, outcome, rest, rfl, same, within⟩ := nested
    exact ⟨inner, back, outcome, rest ++ later, by simp, same, within⟩
  | registered | appointed | unanswered | settled | blocked | left | asked | noted => trivial

namespace Activity

variable {config : Config} {base : FrameStack} {self callee : Key} {k inside middle last : Kernel}
  {frame : Frame} {result : ModuleResult} {journal body : List Moment}

theorem handsBack (within : Activity callee inside body middle)
    (entered : inside.Activated config base frame callee) (rest : List Moment) :
    HandsBack inside frame (body ++ .left middle frame result :: rest) := by
  refine ⟨body, middle, result, rest, rfl, within.balanced.1, ?_⟩
  intro m member now key control
  rw [entered.named]
  exact (within.within entered.framed entered.seats m member).place now key control

theorem above (within : Activity callee inside body middle)
    (entered : inside.Activated config base frame callee) {selector : Selector} {payload : Bytes} :
    ∀ m ∈ .entered inside frame selector payload :: (body ++ [.left middle frame result]),
      ∀ now key, m.control? = some (now, key) → now.frames.Above base := by
  simp only [List.forall_mem_cons, List.forall_mem_append]
  refine ⟨?_, ?_, ?_, by simp⟩
  · intro now key control
    cases control
    exact entered.above
  · intro m member now key control
    rcases (within.within entered.framed entered.seats m member).place now key control with
      ⟨same, -⟩ | deeper
    · rw [same]
      exact entered.above
    · exact deeper.trans entered.above
  · intro now key control
    cases control
    exact (within.activated entered).above

theorem nested (activity : Activity self k journal last) (framed : k.Framed config)
    (seats : k.Seats self) : Throughout Nested journal := by
  induction activity with
  | done => exact .nil
  | ask _ ih | note _ ih => exact .cons Nested.grows trivial (ih framed seats)
  | refuse _ _ ih | fail _ _ _ ih =>
    exact .cons_cons Nested.grows ⟨[], _, _, _, rfl, rfl, by simp⟩ trivial (ih framed seats)
  | @commit self k next last s rest admitted effective committed later ih =>
    obtain ⟨same, limits, -⟩ := Kernel.commit_ok committed
    have seats_next : next.Seats self := by
      rw [Kernel.Seats, same]
      exact seats
    exact .cons_cons Nested.grows ⟨[], _, _, _, rfl, same, by simp⟩ trivial
      (ih (framed.reframe limits same) seats_next)
  | block _ _ _ ih =>
    refine .cons_cons Nested.grows ⟨[_], _, _, _, rfl, rfl, ?_⟩ trivial
      (.cons Nested.grows trivial (ih framed seats))
    intro m member inside key control
    rw [List.mem_singleton.mp member] at control
    cases control
  | @call self target k inside middle last selector payload module frame result body rest
      admitted prepared within later within_ih ih =>
    obtain ⟨entered, caller⟩ := framed.call seats prepared
    have framed_after : Kernel.Framed config { middle with frames := k.frames } :=
      ⟨(within.activated entered).framed.limits, framed.stacked⟩
    have returns : ComesBack k self (.call target selector payload)
        (.entered inside frame selector payload :: (body ++ .left middle frame result ::
          .settled { middle with frames := k.frames } self (.call target selector payload)
            result.outcome :: rest)) :=
      ⟨.entered inside frame selector payload :: (body ++ [.left middle frame result]),
        { middle with frames := k.frames }, result.outcome, rest, by simp, rfl,
        within.above entered⟩
    have called : frame.CalledAfter selector payload
        [.attempted k self (.call target selector payload) (.ok ())] :=
      ⟨[], k, self, caller, by rw [entered.named]; rfl⟩
    refine .cons_cons Nested.grows returns
      ⟨entered.innermost, called, within.handsBack entered _⟩ ?_
    refine .append Nested.grows (within_ih entered.framed entered.seats) ?_
    exact .cons Nested.grows trivial (.cons Nested.grows trivial (ih framed_after seats))

theorem opened (activity : Activity self k journal last) :
    ∀ m ∈ journal, m.Opened k.frames journal := by
  induction activity with
  | done => simp
  | ask _ ih | note _ ih =>
    simp only [List.forall_mem_cons]
    exact ⟨.shown rfl rfl, fun m member => (ih m member).mono (List.subset_cons_self _ _)⟩
  | refuse _ _ ih | fail _ _ _ ih =>
    simp only [List.forall_mem_cons]
    refine ⟨.shown rfl rfl, .shown rfl rfl, fun m member => (ih m member).mono ?_⟩
    simp
  | commit _ _ committed _ ih =>
    have same := (Kernel.commit_ok committed).1
    simp only [List.forall_mem_cons]
    rw [same] at ih
    refine ⟨.shown rfl rfl, .shown rfl same, fun m member => (ih m member).mono ?_⟩
    simp
  | block _ _ _ ih =>
    simp only [List.forall_mem_cons]
    refine ⟨.shown rfl rfl, ?_, .shown rfl rfl, fun m member => (ih m member).mono ?_⟩
    · intro now key control
      cases control
    · intro x there
      simp [there]
  | @call self target k inside middle last selector payload module frame result body rest
      admitted prepared within later within_ih ih =>
    have regroup (after : List Moment) :
        .entered inside frame selector payload :: (body ++ .left middle frame result :: after) =
          (.entered inside frame selector payload :: (body ++ [.left middle frame result])) ++
            after := by
      simp
    rw [regroup]
    refine List.forall_mem_cons.mpr ⟨.shown rfl rfl, List.forall_mem_append.mpr
      ⟨Moment.Opened.span k.frames within_ih within.balanced.1 ?_, List.forall_mem_cons.mpr
        ⟨.shown rfl rfl, fun m there => (ih m there).mono ?_⟩⟩⟩
    · exact List.subset_cons_of_subset _ (List.subset_append_left _ _)
    · intro x there
      simp [there]

theorem answered (activity : Activity self k journal last) : ∀ m ∈ journal, m.Answered := by
  induction activity with
  | done => simp
  | ask _ ih | note _ ih | refuse _ _ ih | fail _ _ _ ih | commit _ _ _ _ ih | block _ _ _ ih =>
    simpa [Moment.Answered] using ih
  | call _ _ _ _ within_ih ih =>
    simp only [List.forall_mem_cons, List.forall_mem_append]
    exact ⟨trivial, trivial, within_ih, trivial, trivial, ih⟩

-- A syscall comes back inside the frames it was made in, so what was inside a frame stays there.
theorem actsInside (activity : Activity self k journal last) (occupied : k.frames.isEmpty = false) :
    ∀ m ∈ journal, m.Inside := by
  induction activity with
  | done => simp
  | ask _ ih | note _ ih =>
    simp only [List.forall_mem_cons]
    exact ⟨.own rfl rfl occupied, ih occupied⟩
  | refuse _ _ ih | fail _ _ _ ih =>
    simp only [List.forall_mem_cons]
    exact ⟨.own rfl rfl occupied, .own rfl rfl occupied, ih occupied⟩
  | @commit self k next last s rest admitted effective committed later ih =>
    have occupied_next : next.frames.isEmpty = false := by
      rw [(Kernel.commit_ok committed).1, occupied]
    simp only [List.forall_mem_cons]
    exact ⟨.own rfl rfl occupied, .own rfl rfl occupied_next, ih occupied_next⟩
  | block _ _ _ ih =>
    simp only [List.forall_mem_cons]
    exact ⟨.own rfl rfl occupied, .unowned rfl, .own rfl rfl occupied, ih occupied⟩
  | call _ prepared _ _ within_ih ih =>
    obtain ⟨-, -, innermost, -⟩ := Kernel.opens_of_prepare prepared
    simp only [List.forall_mem_cons, List.forall_mem_append]
    exact ⟨.own rfl rfl occupied, .unowned rfl, within_ih (FrameStack.occupied innermost),
      .unowned rfl, .own rfl rfl occupied, ih occupied⟩

end Activity

theorem Entry.actsInside {k : Kernel} {caller : Option Key} {callee : Key} {selector : Selector}
    {payload : Bytes} {r : Run Outcome} (entry : Entry k caller callee selector payload r) :
    ∀ m ∈ r.journal, m.Inside := by
  cases entry with
  | blocked => simpa using Moment.Inside.unowned rfl
  | ran prepared within =>
    obtain ⟨-, -, innermost, -⟩ := Kernel.opens_of_prepare prepared
    simp only [List.forall_mem_cons, List.forall_mem_append]
    exact ⟨.unowned rfl, within.actsInside (FrameStack.occupied innermost), .unowned rfl, by simp⟩

-- Only an outside caller acts outside every frame, where its syscall begins and where it ends.
def Run.ActsInside : Option Key → Run Outcome → Prop
  | none, r => ∀ m ∈ r.journal, m.Inside
  | some caller, r => ∃ start s verdict body outcome,
      r.journal = .attempted start caller s verdict ::
        (body ++ [.settled r.kernel caller s outcome]) ∧ ∀ m ∈ body, m.Inside

/-- The frames of a run that was started with none. The `external` caller is nobody for an
invocation. -/
structure Run.Disciplined (config : Config) (external : Option Key) (r : Run Outcome) : Prop where
  inside : r.ActsInside external
  control : ∀ m ∈ r.journal, ∀ now key, m.control? = some (now, key) →
    ∃ inside frame selector payload below,
      .entered inside frame selector payload ∈ r.journal ∧ inside.frames = now.frames ∧
      now.frames.frames = frame :: below ∧ frame.callee = key ∧
      now.depth = below.length ∧ now.depth ≤ config.maxCallDepth
  answers : ∀ now key query answer, .asked now key query answer ∈ r.journal →
    answer = now.answer key query
  entered : ∀ before inside frame selector payload after,
    r.journal = before ++ .entered inside frame selector payload :: after →
    inside.frames.current? = some frame ∧
      (frame.caller = none ↔ external = none ∧ before = []) ∧
      ∀ caller, frame.caller = some caller → ∃ earlier now, before =
        earlier ++ [.attempted now caller (.call frame.callee selector payload) (.ok ())]
  handsBack : ∀ before inside frame selector payload after,
    r.journal = before ++ .entered inside frame selector payload :: after →
    HandsBack inside frame after
  comesBack : ∀ before now caller s verdict after,
    r.journal = before ++ .attempted now caller s verdict :: after → ComesBack now caller s after
  idle : r.kernel.frames = .empty

def Invoked (external : Option Key) (before : List Moment) : Moment → List Moment → Prop
  | .entered inside frame _ _, after =>
    inside.frames.current? = some frame ∧ frame.caller = none ∧ external = none ∧ before = [] ∧
      HandsBack inside frame after
  | _, _ => False

theorem Kernel.Framed.control {config : Config} {now : Kernel} {key : Key}
    (framed : now.Framed config) (seated : now.frames.current?.map Frame.callee = some key) :
    ∃ frame below, now.frames.frames = frame :: below ∧ frame.callee = key ∧
      now.depth = below.length ∧ now.depth ≤ config.maxCallDepth := by
  obtain ⟨frame, innermost, rfl⟩ := Option.map_eq_some_iff.mp seated
  obtain ⟨below, frames⟩ := List.head?_eq_some_iff.mp innermost
  have depth : now.depth = frame.depth := by simp [Kernel.depth, innermost]
  have stacked := framed.stacked
  rw [frames] at stacked
  obtain ⟨level, room⟩ := stacked.head
  exact ⟨frame, below, frames, rfl, by omega, by omega⟩

theorem Run.Disciplined.of_nested {config : Config} {k : Kernel} {external : Option Key}
    {r : Run Outcome} (limits : k.config = config) (idle : k.frames = .empty)
    (started : k.Started external r) (inside : r.ActsInside external)
    (opened : ∀ m ∈ r.journal, m.Opened .empty r.journal)
    (answered : ∀ m ∈ r.journal, m.Answered)
    (nested : ∀ before m after, r.journal = before ++ m :: after →
      Nested before m after ∨ Invoked external before m after) : r.Disciplined config external where
  inside := inside
  control m member now key control := by
    obtain ⟨actor, within⟩ := started.within limits idle
    have place := within m member
    have framed := place.framed now (Moment.kernel?_of_control? control)
    obtain ⟨frame, below, frames, named, depth, room⟩ :=
      framed.control (place.seated now key control)
    rcases opened m member now key control with
      outside | ⟨inside, first, selector, payload, entered, same⟩
    · rw [outside] at frames
      cases frames
    · obtain ⟨before, after, cut⟩ := List.append_of_mem entered
      have innermost : inside.frames.current? = some first := by
        rcases nested _ _ _ cut with ⟨innermost, -⟩ | ⟨innermost, -⟩
        · exact innermost
        · exact innermost
      rw [same, FrameStack.current?, frames] at innermost
      cases innermost
      exact ⟨inside, frame, selector, payload, below, entered, same, frames, named, depth, room⟩
  answers now key query answer member := answered _ member
  entered before inside frame selector payload after cut := by
    rcases nested _ _ _ cut with
      ⟨innermost, ⟨earlier, now, caller, called, rfl⟩, -⟩ | ⟨innermost, outside, nobody, first, -⟩
    · refine ⟨innermost, by simp [called], ?_⟩
      intro other same
      rw [called] at same
      cases same
      exact ⟨earlier, now, rfl⟩
    · exact ⟨innermost, by simp [outside, nobody, first], by simp [outside]⟩
  handsBack before inside frame selector payload after cut := by
    rcases nested _ _ _ cut with ⟨-, -, hands⟩ | ⟨-, -, -, -, hands⟩
    · exact hands
    · exact hands
  comesBack before now caller s verdict after cut := by
    rcases nested _ _ _ cut with returns | invoked
    · exact returns
    · cases invoked
  idle := started.balanced.1.trans idle

theorem Run.Disciplined.of_unentered {config : Config} {k : Kernel} {external : Option Key}
    {r : Run Outcome} (limits : k.config = config) (idle : k.frames = .empty)
    (started : k.Started external r) (inside : r.ActsInside external) {m : Moment}
    (journal : r.journal = [m]) (uncontrolled : m.control? = none) (answered : m.Answered)
    (nested : ∀ before after, Nested before m after) : r.Disciplined config external := by
  have single {P : Moment → Prop} (here : P m) : ∀ x ∈ r.journal, P x := by
    simpa [journal] using here
  refine .of_nested limits idle started inside (single ?_) (single answered) ?_
  · simp [Moment.Opened, uncontrolled]
  · intro before x after cut
    have whole : Throughout Nested [m] := .cons Nested.grows (nested [] []) .nil
    exact .inl (whole before x after (journal ▸ cut))

namespace Kernel

variable {config : Config} {k : Kernel}

theorem invoke_actsInside (k : Kernel) (target : Option Key) (selector : Selector)
    (payload : Bytes) : (k.invoke target selector payload).ActsInside none := by
  rcases k.invoke_entry target selector payload with ⟨-, silent⟩ | ⟨t, -, -, entry⟩
  · rw [silent]
    simpa [Run.ActsInside] using Moment.Inside.unowned rfl
  · exact entry.actsInside

theorem dispatch_actsInside (k : Kernel) (caller : Key) (s : Syscall) :
    (k.dispatch caller s).ActsInside (some caller) := by
  have run := dispatchWith_budget k caller s
  generalize k.dispatch caller s = r at run
  obtain ⟨inner, performs, rfl⟩ := performs_of_dispatchWith run
  refine ⟨k, s, _, inner.journal, inner.value, rfl, ?_⟩
  cases performs with
  | refused | failed | committed => simp
  | called admitted calls =>
    obtain ⟨entered, enters, rfl⟩ := calls.from_grounded (enterWithin_balanced _)
    exact (enterWithin_nests _ _ _ _ _ _ _ enters).actsInside

theorem dispatch_disciplined (limits : k.config = config) (idle : k.frames = .empty) (caller : Key)
    (s : Syscall) : (k.dispatch caller s).Disciplined config (some caller) := by
  have activity := k.dispatch_activity caller s
  have seats : k.Seats caller := .inl (by rw [idle]; rfl)
  refine .of_nested limits idle (.dispatch caller s) (k.dispatch_actsInside caller s) ?_
    activity.answered ?_
  · rw [← idle]
    exact activity.opened
  · intro before m after cut
    exact .inl (activity.nested (framed_idle limits idle) seats before m after cut)

theorem invoke_disciplined (limits : k.config = config) (idle : k.frames = .empty)
    (target : Option Key) (selector : Selector) (payload : Bytes) :
    (k.invoke target selector payload).Disciplined config none := by
  have started : k.Started none (k.invoke target selector payload) := .invoke ..
  have acts := k.invoke_actsInside target selector payload
  have entry := k.invoke_entry target selector payload
  generalize k.invoke target selector payload = r at started acts entry
  rcases entry with ⟨-, rfl⟩ | ⟨t, -, -, entry⟩
  · exact .of_unentered limits idle started acts rfl rfl trivial (fun _ _ => trivial)
  · cases entry with
    | blocked => exact .of_unentered limits idle started acts rfl rfl trivial (fun _ _ => trivial)
    | @ran module frame inside middle body result prepared within =>
      have outermost : k.frames.current?.map Frame.callee = none := by
        rw [idle]
        rfl
      rw [← outermost] at prepared
      obtain ⟨entered, caller⟩ := (framed_idle limits idle).enter (List.suffix_refl _) prepared
      rw [outermost] at caller
      have body_nested := within.nested entered.framed entered.seats
      have tail_nested : Throughout Nested (body ++ [.left middle frame result]) :=
        .append Nested.grows body_nested (.cons Nested.grows trivial .nil)
      refine .of_nested limits idle started acts
        (.span .empty within.opened within.balanced.1 (List.Subset.refl _)) ?_ ?_
      · simp only [List.forall_mem_cons, List.forall_mem_append]
        exact ⟨trivial, within.answered, trivial, by simp⟩
      · intro before m after cut
        cases before with
        | nil =>
          cases cut
          exact .inr ⟨entered.innermost, caller, rfl, rfl, within.handsBack entered []⟩
        | cons first before =>
          injection cut with same tail
          subst same
          have later := tail_nested before m after tail
          exact .inl (by simpa using Nested.grows [.entered inside frame selector payload] [] later)

/-- Whatever the modules do, one acts only inside a frame, as the callee of the innermost, and no
frame outlives the run. -/
theorem frames_follow_nesting (host : Host) (config : Config) (commands : List Command) :
    (∀ target selector payload, (((ofHost host config).session commands).kernel.invoke target
      selector payload).Disciplined config none) ∧
    ∀ caller s, (((ofHost host config).session commands).kernel.dispatch caller s).Disciplined
      config (some caller) := by
  obtain ⟨idle, limits⟩ := session_idle host config commands
  exact ⟨invoke_disciplined limits idle, dispatch_disciplined limits idle⟩

def caver : Key := ⟨[118], by simp, by simp⟩

def caverModule : Module := fun selector payload =>
  .syscall (.call caver selector payload) fun outcome => .done (outcome.mapError Failure.code)

def cavern : Kernel :=
  ((ofHost (Host.empty.install (.ofUInt64 7) caverModule) ⟨2, 16⟩).session
    [.bootstrap caver (.ofUInt64 7) [.call [caver]]]).kernel

example : (cavern.invoke none ⟨0⟩ []).journal.filterMap Moment.activation? =
    [⟨none, caver, 0⟩, ⟨some caver, caver, 1⟩, ⟨some caver, caver, 2⟩] := by
  rfl

example : (cavern.dispatch caver (.call caver ⟨0⟩ [])).journal.filterMap Moment.activation? =
    [⟨some caver, caver, 1⟩, ⟨some caver, caver, 2⟩] := by
  rfl

end Kernel

end RefMonitor
