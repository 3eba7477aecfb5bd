import RefMonitor.Kernel.Administration
import RefMonitor.Proofs.Trace

set_option autoImplicit false

namespace RefMonitor.Kernel

inductive Obeys (k : Kernel) : Kernel → List Moment → Prop where
  | ran {external : Option Key} {r : Run Outcome} (started : k.Started external r) :
      Obeys k r.kernel r.journal
  | declined : Obeys k k []
  | created {key : Key} {location : Location} {capabilities : List Capability} {index : Nat}
      {table : Table}
      (created : k.table.create key location (.ofList capabilities) = .ok (index, table)) :
      Obeys k { k with table } [.registered key index capabilities.length]
  | appointed {key : Key} {location : Location} {capabilities : List Capability} {index : Nat}
      {table : Table}
      (created : k.table.create key location (.ofList capabilities) = .ok (index, table)) :
      Obeys k { k with table, entry := some key }
        [.registered key index capabilities.length, .appointed key location]
  | granted {key : Key} {c : Capability} {table : Table}
      (granted : k.table.addCapability key c = .ok table) : Obeys k { k with table } []
  | rehosted (host : Host) : Obeys k { k with host } []

theorem obeys (k : Kernel) (command : Command) :
    Obeys k (k.obey command).kernel (k.obey command).journal := by
  cases command with
  | invoke target selector payload => exact .ran (.invoke target selector payload)
  | dispatch caller s => exact .ran (.dispatch caller s)
  | execute caller s => exact .ran (.dispatch caller s)
  | rehost host => exact .rehosted host
  | create key location capabilities =>
    simp only [obey, create, Run.map]
    cases made : k.table.create key location (.ofList capabilities) with
    | error _ => exact .declined
    | ok pair => exact .created made
  | bootstrap key location capabilities =>
    simp only [obey, bootstrap, create, Run.map]
    cases made : k.table.create key location (.ofList capabilities) with
    | error _ => exact .declined
    | ok pair => exact .appointed made
  | grant key c =>
    simp only [obey, addCapability]
    cases made : k.table.addCapability key c with
    | error _ => exact .declined
    | ok table => exact .granted made

theorem session_append (k : Kernel) (earlier later : List Command) :
    k.session (earlier ++ later) =
      ((k.session earlier).kernel.session later).after (k.session earlier).journal := by
  induction earlier generalizing k with
  | nil => rfl
  | cons command earlier ih => simp [session, ih, Run.after]

theorem session_invariant (P Q : Kernel → Prop) (told : Moment → Prop)
    (keeps : ∀ {k next : Kernel} {journal : List Moment}, Obeys k next journal → P k →
      (∀ m ∈ journal, told m) →
      P next ∧ ∀ m ∈ journal, ∀ now, m.kernel? = some now → Q now)
    {k : Kernel} (start : P k) (commands : List Command)
    (tells : ∀ m ∈ (k.session commands).journal, told m) :
    P (k.session commands).kernel ∧
      ∀ m ∈ (k.session commands).journal, ∀ now, m.kernel? = some now → Q now := by
  induction commands generalizing k with
  | nil => exact ⟨start, by simp [session]⟩
  | cons command rest ih =>
    simp only [session, Run.after, List.forall_mem_append] at tells ⊢
    obtain ⟨next, during⟩ := keeps (k.obeys command) start tells.1
    obtain ⟨finish, later⟩ := ih next tells.2
    exact ⟨finish, during, later⟩

theorem Started.balanced {k : Kernel} {external : Option Key} {r : Run Outcome}
    (started : k.Started external r) : r.Balanced k := by
  cases started with
  | invoke target selector payload =>
    exact invokeWith_balanced (enterWithin_balanced _) (invokeWith_budget k target selector payload)
  | dispatch caller s =>
    exact dispatchWith_balanced (enterWithin_balanced _) (dispatchWith_budget k caller s)

theorem Obeys.idle {config : Config} {k next : Kernel} {journal : List Moment}
    (obeys : Obeys k next journal) (idle : k.frames = .empty ∧ k.config = config) :
    next.frames = .empty ∧ next.config = config := by
  cases obeys with
  | ran started =>
    obtain ⟨frames, limits⟩ := started.balanced
    exact ⟨frames.trans idle.1, limits.trans idle.2⟩
  | declined | created | appointed | granted | rehosted => exact idle

theorem session_idle (host : Host) (config : Config) (commands : List Command) :
    ((ofHost host config).session commands).kernel.frames = .empty ∧
      ((ofHost host config).session commands).kernel.config = config := by
  have start : (ofHost host config).frames = .empty ∧ (ofHost host config).config = config :=
    ⟨rfl, rfl⟩
  have whole := session_invariant (fun k => k.frames = .empty ∧ k.config = config)
    (fun _ => True) (fun _ => True)
    (fun obeys idle _ => ⟨obeys.idle idle, fun _ _ _ _ => trivial⟩) start commands
    (fun _ _ => trivial)
  exact whole.1

end RefMonitor.Kernel
