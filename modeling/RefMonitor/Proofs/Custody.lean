import RefMonitor.Proofs.Authority
import RefMonitor.Proofs.TableInvariant
import RefMonitor.Proofs.Trace

set_option autoImplicit false

namespace RefMonitor

namespace Kernel

def Grants (start : Kernel) (members : Key → Prop) (request : Request) : Prop :=
  ∃ key procedure, members key ∧ start.table.lookup key = some procedure ∧
    ∃ c ∈ procedure.capabilities.caps, c.operation = request.operation ∧ c.permits request = true

def Derives (start : Kernel) (members : Key → Prop) (held : Held) : Prop :=
  ∃ key procedure, members key ∧ start.table.lookup key = some procedure ∧
    held.Within procedure.capabilities

/-- What stays true while only a group acts: whatever differs from the start is something the group
was allowed to change, and every list of capabilities is as it was or handed down by the group. -/
structure Custody (start : Kernel) (members : Key → Prop) (k : Kernel) : Prop where
  sound : k.table.Sound
  summarized : k.table.Summarized
  callees : ∀ frame ∈ k.frames.frames,
    start.table.contains frame.callee = true → members frame.callee
  delegated : ∀ key location held, k.table.registration? key = some (location, held) →
    start.table.registration? key = some (location, held) ∨ start.Derives members held
  written : ∀ slot, k.host.slot slot ≠ start.host.slot slot → start.Grants members (.write slot)
  emitted : ∃ emitted, k.host.events = start.host.events ++ emitted ∧
    ∀ e ∈ emitted, start.Grants members (.log e.topics)
  removed : ∀ key, start.table.registration? key ≠ none →
    k.table.registration? key ≠ start.table.registration? key →
    start.Grants members (.delete key none)
  placed : ∀ key, k.table.registration? key ≠ none →
    k.table.registration? key ≠ start.table.registration? key →
    start.Grants members (.register key [])
  redirected : k.entry ≠ start.entry → start.Grants members .setEntry

-- A group that nothing outside it can enter: it has whoever the run is for, and with a caller every
-- procedure the caller may call.
structure Enclosed (start : Kernel) (members : Key → Prop) (origin : Origin) : Prop where
  sound : start.table.Sound
  caller : ∀ caller, origin.caller? = some caller →
    start.table.contains caller = true → members caller
  target : ∀ t, origin = .invocation t → start.table.contains t = true → members t
  closed : ∀ callee, start.Grants members (.call callee) →
    start.table.contains callee = true → members callee

namespace Custody

variable {base : FrameStack} {origin : Origin} {start k next : Kernel} {members : Key → Prop}
  {caller : Key} {s : Syscall}

theorem refl (sound : k.table.Sound) (summarized : k.table.Summarized)
    (callees : ∀ frame ∈ k.frames.frames,
      k.table.contains frame.callee = true → members frame.callee) :
    k.Custody members k where
  sound := sound
  summarized := summarized
  callees := callees
  delegated _ _ _ same := .inl same
  written _ differs := absurd rfl differs
  emitted := ⟨[], by simp⟩
  removed _ _ differs := absurd rfl differs
  placed _ _ differs := absurd rfl differs
  redirected differs := absurd rfl differs

theorem reframe (custody : start.Custody members k) {frames : FrameStack}
    (callees : ∀ frame ∈ frames.frames,
      start.table.contains frame.callee = true → members frame.callee) :
    start.Custody members { k with frames } :=
  { custody with callees }

theorem pop (custody : start.Custody members k) :
    start.Custody members { k with frames := k.frames.pop } := by
  refine custody.reframe ?_
  intro frame member
  exact custody.callees frame (List.mem_of_mem_tail member)

theorem push (custody : start.Custody members k) {caller : Option Key} {callee : Key}
    {limit : Nat} {frame : Frame} {frames : FrameStack}
    (pushed : k.frames.push caller callee limit = .ok (frame, frames))
    (inside : start.table.contains callee = true → members callee) :
    start.Custody members { k with frames } := by
  refine custody.reframe ?_
  obtain ⟨-, rfl, grown⟩ := FrameStack.frames_of_push pushed
  intro other member
  rw [grown, List.mem_cons] at member
  rcases member with rfl | below
  · exact inside
  · exact custody.callees other below

theorem derived (custody : start.Custody members k) (sound : start.table.Sound) {key : Key}
    {procedure : Procedure} (inside : start.table.contains key = true → members key)
    (found : k.table.lookup key = some procedure) :
    start.Derives members procedure.capabilities := by
  rcases custody.delegated _ _ _ (Table.registration?_of_lookup found) with same | derived
  · obtain ⟨old, known, pair⟩ := Option.map_eq_some_iff.mp same
    have untouched : old.capabilities = procedure.capabilities := congrArg Prod.snd pair
    have live := (sound.contains_iff_lookup key).mpr ⟨old, known⟩
    refine ⟨key, old, inside live, known, ?_⟩
    rw [untouched]
    exact .refl _
  · exact derived

theorem actor (custody : start.Custody members k) (enclosed : start.Enclosed members origin)
    (acting : k.actor? base origin = some caller) :
    start.table.contains caller = true → members caller := by
  unfold actor? at acting
  split at acting
  next => exact enclosed.caller caller acting
  next =>
    obtain ⟨frame, innermost, rfl⟩ := Option.map_eq_some_iff.mp acting
    exact custody.callees frame (List.mem_of_head? innermost)

theorem admitted (custody : start.Custody members k) (enclosed : start.Enclosed members origin)
    (acting : k.actor? base origin = some caller) (admitted : k.verdict caller s = .ok ()) :
    start.Grants members (s.request k.entry) ∧
      start.Derives members (.ofList (s.request k.entry).grants) := by
  obtain ⟨-, -, -, procedure, found, authorized⟩ := verdict_ok_iff.mp admitted
  have member := ((custody.sound.lookup_iff caller procedure).mp found).1
  have valid := custody.sound.valid procedure member
  rw [Held.authorize_iff (custody.summarized procedure member)] at authorized
  obtain ⟨-, permitted, covered⟩ := authorized
  obtain ⟨key, source, inside, known, within⟩ :=
    custody.derived enclosed.sound (custody.actor enclosed acting) found
  have handed : (Held.ofList (s.request k.entry).grants).Within procedure.capabilities := by
    intro grant listed
    rw [Held.caps_ofList] at listed
    exact covered grant listed
  exact ⟨⟨key, source, inside, known, within.permitting valid permitted⟩,
    key, source, inside, known, handed.trans within⟩

theorem delete (custody : start.Custody members k) {target : Key} {removed : Procedure}
    {table : Table} (deleted : k.table.delete target = .ok (removed, table))
    (granted : start.Grants members (.delete target none)) :
    start.Custody members { k with table } := by
  have after := Table.registration?_delete custody.sound deleted
  refine { custody with
    sound := custody.sound.delete deleted
    summarized := custody.summarized.delete custody.sound deleted
    delegated := ?_, removed := ?_, placed := ?_ }
  · intro key location held now
    rw [after] at now
    split at now
    next => cases now
    next => exact custody.delegated key location held now
  · intro key old differs
    rw [after] at differs
    split at differs
    next gone => exact gone ▸ granted
    next => exact custody.removed key old differs
  · intro key now differs
    rw [after] at now differs
    split at now
    next => exact absurd rfl now
    next kept =>
      rw [if_neg kept] at differs
      exact custody.placed key now differs

theorem register (custody : start.Custody members k) {target : Key} {location : Location}
    {capabilities : List Capability} {index : Nat} {table : Table}
    (created : k.table.create target location (.ofList capabilities) = .ok (index, table))
    (granted : start.Grants members (.register target []))
    (derived : start.Derives members (.ofList capabilities)) :
    start.Custody members { k with table } := by
  have after := Table.registration?_create custody.sound created
  have fresh : k.table.registration? target = none := by
    rw [custody.sound.registration?_eq_none_iff]
    exact ((Table.create_eq_ok_iff ..).mp created).2.1
  refine { custody with
    sound := custody.sound.create created
    summarized := custody.summarized.create created
    delegated := ?_, removed := ?_, placed := ?_ }
  · intro key place held now
    rw [after] at now
    split at now
    next =>
      cases now
      exact .inr derived
    next => exact custody.delegated key place held now
  · intro key old differs
    by_cases here : key = target
    · subst here
      refine custody.removed key old ?_
      rw [fresh]
      exact old.symm
    · rw [after, if_neg here] at differs
      exact custody.removed key old differs
  · intro key now differs
    by_cases here : key = target
    · exact here ▸ granted
    · rw [after, if_neg here] at now differs
      exact custody.placed key now differs

theorem commit (custody : start.Custody members k)
    (granted : start.Grants members (s.request k.entry))
    (derived : start.Derives members (.ofList (s.request k.entry).grants))
    (committed : k.commit s = .ok next) : start.Custody members next := by
  cases commits_of_commit committed with
  | write =>
    refine { custody with written := ?_ }
    intro slot differs
    rw [Host.slot_store] at differs
    split at differs
    next same => exact same ▸ granted
    next => exact custody.written slot differs
  | @log topics data =>
    obtain ⟨emitted, grown, allowed⟩ := custody.emitted
    refine { custody with emitted := ⟨emitted ++ [⟨topics, data⟩], ?_, ?_⟩ }
    · simp [Host.emit, grown]
    · intro e member
      rcases List.mem_append.mp member with early | late
      · exact allowed e early
      · rw [List.mem_singleton.mp late]
        exact granted
  | call => exact custody
  | setEntry => exact { custody with redirected := fun _ => granted }
  | delete deleted => exact custody.delete deleted granted
  | register created => exact custody.register created granted derived

theorem step {moments : List Moment} (custody : start.Custody members k)
    (enclosed : start.Enclosed members origin) (step : Step base origin k moments next) :
    start.Custody members next := by
  cases step with
  | watch still own inert calm => exact custody
  | commit acting admitted effective committed =>
    obtain ⟨granted, derived⟩ := custody.admitted enclosed acting admitted
    exact custody.commit granted derived committed
  | root acting outside pushed => exact custody.push pushed (custody.actor enclosed acting)
  | unroot outermost => exact custody.pop
  | leave innermost => exact custody.pop
  | enter admits prepared =>
    rename_i caller callee module frame selector payload
    obtain ⟨frames, pushed, rfl⟩ := prepare_ok prepared
    refine custody.push pushed ?_
    cases caller with
    | none => exact enclosed.target callee admits.1
    | some caller =>
      obtain ⟨acting, selector, payload, called⟩ := admits
      exact enclosed.closed callee (custody.admitted enclosed acting called).1

theorem trace {last : Kernel} {journal : List Moment} (custody : start.Custody members k)
    (enclosed : start.Enclosed members origin) (trace : Trace base origin k journal last) :
    start.Custody members last ∧
      ∀ m ∈ journal, ∀ now, m.kernel? = some now → start.Custody members now :=
  Trace.invariant (fun step custody => custody.step enclosed step) trace custody

end Custody

end Kernel

end RefMonitor
