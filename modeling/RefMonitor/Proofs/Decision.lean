import RefMonitor.Proofs.Activity
import RefMonitor.Proofs.Budget
import RefMonitor.Proofs.Mediation
import RefMonitor.Proofs.Rejection

set_option autoImplicit false

namespace RefMonitor

inductive Check where
  | caller
  | form
  | protection
  | presence
  | authority
  | code
  | depth
  deriving DecidableEq

namespace Check

def rank : Check → Nat
  | .caller => 0
  | .form => 1
  | .protection => 2
  | .presence => 3
  | .authority => 4
  | .code => 5
  | .depth => 6

theorem eq_of_rank {check other : Check} (same : check.rank = other.rank) : check = other := by
  cases check <;> cases other <;> first | rfl | cases same

theorem rank_lt (check : Check) : check.rank < Check.depth.rank + 1 := by
  cases check <;> decide

def rejection (s : Syscall) : Check → Rejection
  | .caller => .unknownCaller
  | .form => .invalidArgument
  | .protection => .protectedTarget
  | .presence =>
    match s with
    | .register .. => .duplicateKey
    | _ => .notFound
  | .authority => .capabilityDenied
  | .code => .notFound
  | .depth => .callDepthExceeded

def Fails (k : Kernel) (caller : Key) : Check → Syscall → Prop
  | .caller, _ => caller ∉ k.table.keys
  | .form, .write .. => False
  | .form, .log topics data =>
    4 < topics.length ∨ k.config.maxPayloadLength < data.length
  | .form, .call target _ payload => target = .null ∨ k.config.maxPayloadLength < payload.length
  | .form, .delete target | .form, .setEntry target => target = .null
  | .form, .register target _ capabilities => target = .null ∨ ∃ c ∈ capabilities, ¬ c.Valid
  | .protection, .delete target => k.entry = some target
  | .presence, .call target _ _ | .presence, .delete target => target ∉ k.table.keys
  | .presence, .register target _ _ => target ∈ k.table.keys
  | .authority, s => ∃ p reason, k.table.lookup caller = some p ∧
      p.capabilities.authorize (s.request k.entry) = .error reason
  | .code, .call target _ _ => ∃ p, k.table.lookup target = some p ∧
      k.host.module? p.location = none
  | .depth, .call .. => k.config.maxCallDepth < max k.frames.length 1
  | .protection, _ | .presence, _ | .code, _ | .depth, _ => False

end Check

namespace Kernel

def Passes (k : Kernel) (caller : Key) (s : Syscall) (count : Nat) : Prop :=
  ∀ check : Check, check.rank < count → ¬ check.Fails k caller s

structure Stops (k : Kernel) (caller : Key) (s : Syscall) (check : Check) : Prop where
  fails : check.Fails k caller s
  passes : k.Passes caller s check.rank

def Fulfils (k : Kernel) (caller : Key) : Syscall → Run Outcome → Prop
  | .write address value, r => r.value = .ok [] ∧
      (∀ slot, r.kernel.host.slot slot = if address = slot then value else k.host.slot slot) ∧
      r.kernel = { k with host := { k.host with storage := r.kernel.host.storage } }
  | .log topics data, r => r.value = .ok [] ∧
      r.kernel = { k with host := { k.host with events := k.host.events ++ [⟨topics, data⟩] } }
  | .delete target, r => r.value = .ok [] ∧
      (∃ position last, k.table.Deletion target r.kernel.table position last) ∧
      r.kernel = { k with table := r.kernel.table }
  | .setEntry target, r => r.value = .ok [] ∧ r.kernel = { k with entry := some target }
  | .register target location capabilities, r => r.value = .ok [] ∧
      r.kernel.table.records = k.table.records ++
        [⟨target, k.table.length + 1, location, .ofList capabilities⟩] ∧
      r.kernel.table.Sound ∧ r.kernel = { k with table := r.kernel.table }
  | .call target selector payload, r => ∃ p module, k.table.lookup target = some p ∧
      k.host.module? p.location = some module ∧
      let frame : Frame := ⟨some caller, target, max k.frames.length 1⟩
      let inside := { k with frames := ⟨frame :: (k.grounded caller).frames.frames⟩ }
      let body := (module selector payload).perform target inside
      r.value = body.value.outcome ∧ r.kernel = { body.kernel with frames := k.frames } ∧
      r.journal = .attempted k caller (.call target selector payload) (.ok ()) ::
        .entered inside frame selector payload :: (body.journal ++
          [.left body.kernel frame body.value,
            .settled r.kernel caller (.call target selector payload) r.value])

variable {k : Kernel} {caller : Key} {s : Syscall}

theorem Passes.none : k.Passes caller s 0 := by
  intro check below
  omega

theorem Passes.next {check : Check} (passes : k.Passes caller s check.rank)
    (passed : ¬ check.Fails k caller s) : k.Passes caller s (check.rank + 1) := by
  intro other below
  by_cases same : other.rank = check.rank
  · rw [Check.eq_of_rank same]
    exact passed
  · exact passes other (by omega)

theorem Stops.unique {check other : Check} (stops : k.Stops caller s check)
    (again : k.Stops caller s other) : check = other := by
  rcases Nat.lt_trichotomy check.rank other.rank with earlier | same | later
  · exact absurd stops.fails (again.passes check earlier)
  · exact Check.eq_of_rank same
  · exact absurd again.fails (stops.passes other later)

theorem wellFormed_iff (k : Kernel) (caller : Key) (s : Syscall) :
    s.wellFormed k.config = true ↔ ¬ Check.form.Fails k caller s := by
  cases s with
  | write address value => simp [Syscall.wellFormed, Check.Fails]
  | log topics data =>
    have four : maxTopics = 4 := rfl
    simp [Syscall.wellFormed, Check.Fails, four]
  | call target selector payload =>
    simp [Syscall.wellFormed, Check.Fails, ← Key.isNull_iff]
  | delete target => simp [Syscall.wellFormed, Check.Fails, ← Key.isNull_iff]
  | setEntry target => simp [Syscall.wellFormed, Check.Fails, ← Key.isNull_iff]
  | register target location capabilities =>
    simp [Syscall.wellFormed, Check.Fails, ← Key.isNull_iff, Capability.Valid]

theorem contains_caller_iff (sound : k.table.Sound) :
    k.table.contains caller = true ↔ ¬ Check.caller.Fails k caller s := by
  rw [sound.contains_iff]
  cases s <;> simp [Check.Fails]

theorem targetRefusal?_cases (sound : k.table.Sound) (caller : Key) (s : Syscall) :
    (Check.protection.Fails k caller s ∧ k.targetRefusal? s = some .protectedEntry) ∨
    ¬ Check.protection.Fails k caller s ∧
      ((∃ refusal, Check.presence.Fails k caller s ∧ k.targetRefusal? s = some refusal ∧
        refusal.rejection = Check.presence.rejection s) ∨
      ¬ Check.presence.Fails k caller s ∧ k.targetRefusal? s = none) := by
  have present (target : Key) := sound.contains_iff target
  cases s with
  | write | log | setEntry => simp [Check.Fails, targetRefusal?]
  | call target selector payload =>
    by_cases known : target ∈ k.table.keys
    · simp [Check.Fails, targetRefusal?, present, known]
    · simp [Check.Fails, targetRefusal?, present, known, Refusal.rejection, Check.rejection]
  | delete target =>
    by_cases entry : k.entry = some target
    · simp [Check.Fails, targetRefusal?, entry]
    by_cases known : target ∈ k.table.keys
    · simp [Check.Fails, targetRefusal?, entry, present, known]
    · simp [Check.Fails, targetRefusal?, entry, present, known, Refusal.rejection, Check.rejection]
  | register target location capabilities =>
    by_cases known : target ∈ k.table.keys
    · simp [Check.Fails, targetRefusal?, present, known, Refusal.rejection, Check.rejection]
    · simp [Check.Fails, targetRefusal?, present, known]

theorem strandsEntry_of_authorize {held : Held} {request : Request}
    (decided : held.authorize request = .error .protectedTarget) : request.strandsEntry = true := by
  by_cases strands : request.strandsEntry = true
  · exact strands
  · simp only [Held.authorize, if_neg strands] at decided
    split at decided
    next => cases decided
    next =>
      split at decided
      next => cases decided
      next =>
        split at decided
        next => split at decided <;> cases decided
        next => cases decided

theorem protection_of_strandsEntry (strands : (s.request k.entry).strandsEntry = true) :
    Check.protection.Fails k caller s := by
  cases s with
  | write | log | call | setEntry | register => cases strands
  | delete target =>
    cases named : k.entry with
    | none => simp [Syscall.request, named, Request.strandsEntry] at strands
    | some entry =>
      have same : target = entry := by
        simpa [Syscall.request, named, Request.strandsEntry] using strands
      rw [Check.Fails, named, same]

theorem authorize_cases (sound : k.table.Sound) (known : ¬ Check.caller.Fails k caller s)
    (unprotected : ¬ Check.protection.Fails k caller s) :
    (∃ refusal, Check.authority.Fails k caller s ∧ k.authorize caller s = .error refusal ∧
      refusal.rejection = Check.authority.rejection s) ∨
    ¬ Check.authority.Fails k caller s ∧ k.authorize caller s = .ok () := by
  obtain ⟨p, found⟩ := (sound.contains_iff_lookup caller).mp ((contains_caller_iff sound).mpr known)
  have authority : Check.authority.Fails k caller s ↔
      ∃ reason, p.capabilities.authorize (s.request k.entry) = .error reason := by
    simp [Check.Fails, found]
  rw [authority, authorize, found]
  cases decided : p.capabilities.authorize (s.request k.entry) with
  | ok => simp [decided]
  | error reason =>
    refine .inl ⟨.denied reason, ⟨reason, rfl⟩, by simp [decided], ?_⟩
    cases reason with
    | protectedTarget =>
      exact absurd (protection_of_strandsEntry (strandsEntry_of_authorize decided)) unprotected
    | noCapability | outOfScope | amplification => rfl

theorem verdict_cases (sound : k.table.Sound) (caller : Key) (s : Syscall) :
    (∃ check refusal, k.Stops caller s check ∧ k.verdict caller s = .error refusal ∧
      refusal.rejection = check.rejection s) ∨
    k.Passes caller s Check.code.rank ∧ k.verdict caller s = .ok () := by
  unfold verdict
  by_cases known : Check.caller.Fails k caller s
  · have unknown : k.table.contains caller = false := by
      rw [← Bool.not_eq_true, contains_caller_iff sound, Classical.not_not]
      exact known
    exact .inl ⟨.caller, .unknownCaller, ⟨known, .none⟩, by simp [unknown], rfl⟩
  have first : k.Passes caller s Check.form.rank := Passes.none.next known
  rw [(contains_caller_iff sound).mpr known]
  by_cases form : Check.form.Fails k caller s
  · have malformed : s.wellFormed k.config = false := by
      rw [← Bool.not_eq_true, wellFormed_iff k caller, Classical.not_not]
      exact form
    exact .inl ⟨.form, .malformed, ⟨form, first⟩, by simp [malformed], rfl⟩
  have second : k.Passes caller s Check.protection.rank := first.next form
  rw [(wellFormed_iff k caller s).mpr form]
  rcases targetRefusal?_cases sound caller s with
    ⟨protects, refused⟩ | ⟨unprotected, ⟨refusal, fails, refused, kind⟩ | ⟨placed, resolved⟩⟩
  · exact .inl ⟨.protection, .protectedEntry, ⟨protects, second⟩, by simp [refused], rfl⟩
  · exact .inl ⟨.presence, refusal, ⟨fails, second.next unprotected⟩, by simp [refused], kind⟩
  have fourth : k.Passes caller s Check.authority.rank := (second.next unprotected).next placed
  rw [resolved]
  rcases authorize_cases sound known unprotected with
    ⟨refusal, fails, denied, kind⟩ | ⟨authorized, allowed⟩
  · exact .inl ⟨.authority, refusal, ⟨fails, fourth⟩, by simp [denied], kind⟩
  · exact .inr ⟨fourth.next authorized, by simp [allowed]⟩

theorem ready_inside {target : Key} {frame : Frame} {frames : FrameStack}
    (pushed : (k.grounded caller).frames.push (some caller) target
      (k.grounded caller).config.maxCallDepth = .ok (frame, frames)) :
    max k.frames.length 1 ≤ k.config.maxCallDepth ∧
      frame = ⟨some caller, target, max k.frames.length 1⟩ ∧
      { k.grounded caller with frames } =
        { k with frames := ⟨frame :: (k.grounded caller).frames.frames⟩ } := by
  obtain ⟨room, named, grown⟩ := FrameStack.frames_of_push pushed
  rw [length_grounded] at room named
  rw [grounded_config] at room
  exact ⟨room, named, by rw [← grown, grounded_eq]⟩

theorem call_cases (sound : k.table.Sound) {target : Key} {selector : Selector} {payload : Bytes}
    (passes : k.Passes caller (.call target selector payload) Check.code.rank) {budget : Nat}
    {r : Run Outcome}
    (calls : Calls (enterWithin budget) k caller target selector payload r) :
    (∃ check, k.Stops caller (.call target selector payload) check ∧
      r.value = .error (.rejected .call (check.rejection (.call target selector payload))) ∧
      r.kernel = k) ∨
    (∀ check : Check, ¬ check.Fails k caller (.call target selector payload)) ∧
      ∃ p module, k.table.lookup target = some p ∧ k.host.module? p.location = some module ∧
        let frame : Frame := ⟨some caller, target, max k.frames.length 1⟩
        let inside := { k with frames := ⟨frame :: (k.grounded caller).frames.frames⟩ }
        let body := (module selector payload).perform target inside
        r = ⟨body.value.outcome, { body.kernel with frames := k.frames },
          .entered inside frame selector payload ::
            (body.journal ++ [.left body.kernel frame body.value])⟩ := by
  obtain ⟨inner, run, rfl⟩ := calls.from_grounded (enterWithin_balanced budget)
  obtain ⟨p, found⟩ : ∃ p, k.table.lookup target = some p := by
    have listed : target ∈ k.table.keys := Classical.not_not.mp (passes .presence (by decide))
    exact (sound.contains_iff_lookup target).mp ((sound.contains_iff target).mpr listed)
  have fits {module : Module} (resolved : k.host.module? p.location = some module) :
      ¬ Check.code.Fails k caller (.call target selector payload) := by
    simp [Check.Fails, found, resolved]
  cases budget with
  | zero => cases run
  | succ budget =>
    have prepares := (k.grounded caller).prepares (some caller) target
    cases enters_of_enterWithin run with
    | blocked blocked =>
      left
      rw [blocked] at prepares
      cases prepares with
      | unregistered absent =>
        rw [grounded_table, found] at absent
        cases absent
      | noModule known missing =>
        rw [grounded_table] at known
        rw [grounded_host] at missing
        exact ⟨.code, ⟨⟨_, known, missing⟩, passes⟩, rfl, k.grounded_restored caller⟩
      | tooDeep known resolved full =>
        rw [grounded_table, found] at known
        cases known
        rw [grounded_host] at resolved
        have deep := FrameStack.length_of_push_error full
        rw [length_grounded, grounded_config] at deep
        exact ⟨.depth, ⟨deep, passes.next (fits resolved)⟩, rfl, k.grounded_restored caller⟩
    | @ran module frame inside body prepared ran =>
      right
      rw [prepared] at prepares
      cases prepares with
      | ready known resolved pushed =>
        rw [grounded_table, found] at known
        cases known
        rw [grounded_host] at resolved
        obtain ⟨room, rfl, running⟩ := ready_inside pushed
        rw [running] at ran ⊢
        have shallow : ¬ Check.depth.Fails k caller (.call target selector payload) := by
          simp only [Check.Fails]
          omega
        refine ⟨fun check => (passes.next (fits resolved)).next shallow check check.rank_lt,
          p, module, found, resolved, ?_⟩
        dsimp only
        rw [Program.perform_of_run ran]

theorem Commits.fulfils {next : Kernel} {journal : List Moment} (sound : k.table.Sound)
    (commits : k.Commits s next) (effective : s.operation ≠ .call) :
    k.Fulfils caller s ⟨.ok [], next, journal⟩ := by
  cases commits with
  | write => exact ⟨rfl, k.host.slot_store _ _, rfl⟩
  | log => exact ⟨rfl, rfl⟩
  | call => exact absurd rfl effective
  | setEntry => exact ⟨rfl, rfl⟩
  | delete deleted => exact ⟨rfl, Table.deletion_of_delete sound deleted, rfl⟩
  | register created =>
    have next_sound := sound.create created
    obtain ⟨-, -, -, -, rfl⟩ := (Table.create_eq_ok_iff ..).mp created
    exact ⟨rfl, rfl, next_sound, rfl⟩

theorem passes_all (passes : k.Passes caller s Check.code.rank) (effective : s.operation ≠ .call) :
    ∀ check : Check, ¬ check.Fails k caller s := by
  intro check
  cases check with
  | caller | form | protection | presence | authority => exact passes _ (by decide)
  | code | depth =>
    cases s with
    | call => exact absurd rfl effective
    | write | log | delete | setEntry | register => exact id

theorem dispatch_cases (sound : k.table.Sound) (caller : Key) (s : Syscall) :
    (∃ check, k.Stops caller s check ∧
      (k.dispatch caller s).value = .error (.rejected s.operation (check.rejection s)) ∧
      (k.dispatch caller s).kernel = k) ∨
    (∀ check : Check, ¬ check.Fails k caller s) ∧ k.Fulfils caller s (k.dispatch caller s) := by
  obtain ⟨inner, performs, whole⟩ := performs_of_dispatchWith (dispatchWith_budget k caller s)
  rw [whole]
  rcases verdict_cases sound caller s with
    ⟨check, refusal, stops, refused, kind⟩ | ⟨passes, admitted⟩
  · left
    refine ⟨check, stops, ?_⟩
    cases performs with
    | refused again =>
      rw [refused] at again
      cases again
      exact ⟨by rw [kind], rfl⟩
    | called admitted | failed admitted | committed admitted =>
      rw [refused] at admitted
      cases admitted
  · cases performs with
    | refused refused =>
      rw [admitted] at refused
      cases refused
    | failed _ failed =>
      obtain ⟨next, committed⟩ := commit_of_verdict sound admitted
      rw [failed] at committed
      cases committed
    | committed _ effective committed =>
      have commits := commits_of_commit committed
      exact .inr ⟨passes_all passes effective, commits.fulfils sound effective⟩
    | called _ calls =>
      rcases call_cases sound passes calls with ⟨check, stops, rejected, same⟩ | ⟨passed, body⟩
      · exact .inl ⟨check, stops, rejected, same⟩
      · right
        refine ⟨passed, ?_⟩
        obtain ⟨p, module, found, resolved, rfl⟩ := body
        refine ⟨p, module, found, resolved, rfl, rfl, ?_⟩
        simp [admitted]

theorem Fulfils.not_rejected {r : Run Outcome} (fulfilled : k.Fulfils caller s r)
    (op : Operation) (kind : Rejection) : r.value ≠ .error (.rejected op kind) := by
  cases s with
  | call target selector payload =>
    obtain ⟨p, module, -, -, value, -⟩ := fulfilled
    rw [value]
    exact ModuleResult.outcome_ne_rejected _ op kind
  | write | log | delete | setEntry | register =>
    rw [fulfilled.1]
    exact nofun

theorem dispatch_follows_order (sound : k.table.Sound) (caller : Key) (s : Syscall) :
    (∀ check : Check, check.Fails k caller s → ∃ first, k.Stops caller s first) ∧
    (∀ check, k.Stops caller s check →
      (k.dispatch caller s).value = .error (.rejected s.operation (check.rejection s)) ∧
      (k.dispatch caller s).kernel = k) ∧
    ((∀ check : Check, ¬ check.Fails k caller s) → k.Fulfils caller s (k.dispatch caller s)) ∧
    ∀ op kind, (k.dispatch caller s).value = .error (.rejected op kind) →
      op = s.operation ∧ ∃ check, k.Stops caller s check ∧ kind = check.rejection s := by
  rcases dispatch_cases sound caller s with ⟨check, stops, rejected, same⟩ | ⟨passed, fulfilled⟩
  · refine ⟨fun _ _ => ⟨check, stops⟩, ?_, fun passed => absurd stops.fails (passed check), ?_⟩
    · intro other again
      rw [again.unique stops]
      exact ⟨rejected, same⟩
    · intro op kind rejection
      rw [rejected] at rejection
      cases rejection
      exact ⟨rfl, check, stops, rfl⟩
  · refine ⟨fun check fails => absurd fails (passed check),
      fun check stops => absurd stops.fails (passed check), fun _ => fulfilled, ?_⟩
    intro op kind rejected
    exact absurd rejected (fulfilled.not_rejected op kind)

def clerk : Key := ⟨[99], by simp, by simp⟩

def ghost : Key := ⟨[103], by simp, by simp⟩

def registry : Kernel where
  table := ⟨[⟨clerk, 1, .ofUInt64 7, .ofList [.delete [], .call []]⟩],
    Std.ExtTreeMap.empty.insert clerk 0⟩
  entry := some ghost
  frames := .empty
  config := { maxCallDepth := 0 }
  host := .empty

-- The target is absent as well, but that it is the entry counts first.
theorem dispatch_follows_order_registry :
    registry.Stops clerk (.delete ghost) .protection ∧
    (registry.dispatch clerk (.delete ghost)).value =
      .error (.rejected .delete .protectedTarget) := by
  have created : Table.empty.create clerk (.ofUInt64 7) (.ofList [.delete [], .call []]) =
      .ok (1, registry.table) := rfl
  have sound : registry.table.Sound := Table.Sound.empty.create created
  have known : ¬ Check.caller.Fails registry clerk (.delete ghost) := by
    simp [Check.Fails, registry, Table.keys]
  have form : ¬ Check.form.Fails registry clerk (.delete ghost) := by
    simp only [Check.Fails]
    decide
  have stops : registry.Stops clerk (.delete ghost) .protection :=
    ⟨rfl, (Passes.none.next known).next form⟩
  exact ⟨stops, ((dispatch_follows_order sound clerk (.delete ghost)).2.1 .protection stops).1⟩

-- The missing module counts before the missing room.
example : (registry.dispatch clerk (.call clerk ⟨0⟩ [])).value =
    .error (.rejected .call .notFound) := by
  rfl

end Kernel

end RefMonitor
