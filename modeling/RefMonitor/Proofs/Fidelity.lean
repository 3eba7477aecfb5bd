import RefMonitor.Proofs.Calling
import RefMonitor.Proofs.Rejection

set_option autoImplicit false

namespace RefMonitor

theorem Failure.code_rejected_ne (op : Operation) (kind : Rejection) :
    (Failure.rejected op kind).code ≠ .success := by
  cases op <;> cases kind <;> decide

namespace ResultCode

theorem asFailure_eq (c : ResultCode) : c.asFailure = if c.value = 0 then ⟨0xff⟩ else c := by
  simp [asFailure, isSuccess, reverted]

theorem asFailure_ne (c : ResultCode) : c.asFailure ≠ .success := by
  rw [asFailure_eq]
  split
  next => decide
  next nonzero =>
    rintro rfl
    exact nonzero rfl

theorem asFailure_of_ne {c : ResultCode} (failing : c ≠ .success) : c.asFailure = c := by
  rw [asFailure_eq, if_neg]
  intro zero
  cases c
  exact failing (congrArg ResultCode.mk zero)

end ResultCode

-- Of the module that runs it, a run tells no more and no less than the result: data as they are, a
-- failure under its own code or 0xff in place of zero, and a rejection where no module ran at all.
structure Run.Reports (r : Run Outcome) (ran : ModuleResult → Prop) : Prop where
  ok : ∀ data, r.value = .ok data ↔ ran (.ok data)
  reverted : ∀ code, r.value = .error (.reverted code) ↔
    ∃ given : ResultCode, ran (.error given) ∧ code = if given.value = 0 then ⟨0xff⟩ else given
  rejected : (∃ op kind, r.value = .error (.rejected op kind)) ↔ r.activations = []

namespace Run.Reports

variable {r : Run Outcome} {ran : ModuleResult → Prop}

theorem of_rejected {op : Operation} {kind : Rejection}
    (rejected : r.value = .error (.rejected op kind)) (idle : r.activations = [])
    (none_ran : ∀ result, ¬ ran result) : r.Reports ran where
  ok data := by simp [rejected, none_ran]
  reverted code := by simp [rejected, none_ran]
  rejected := iff_of_true ⟨op, kind, rejected⟩ idle

theorem of_ran {result : ModuleResult} (value : r.value = result.outcome)
    (active : r.activations ≠ []) (here : ran result)
    (unique : ∀ other, ran other → other = result) : r.Reports ran where
  ok data := by
    rw [value]
    constructor
    · intro same
      cases result with
      | ok =>
        cases same
        exact here
      | error => cases same
    · intro other
      rw [← unique _ other]
      rfl
  reverted code := by
    simp only [value, ← ResultCode.asFailure_eq]
    constructor
    · intro same
      cases result with
      | ok => cases same
      | error given =>
        cases same
        exact ⟨given, here, rfl⟩
    · rintro ⟨given, other, rfl⟩
      rw [← unique _ other]
      rfl
  rejected := by
    refine iff_of_false ?_ active
    rintro ⟨op, kind, rejected⟩
    exact ModuleResult.outcome_ne_rejected result op kind (value.symm.trans rejected)

end Run.Reports

namespace Kernel

def Ran (k : Kernel) (caller : Option Key) (callee : Key) (selector : Selector) (payload : Bytes)
    (r : Run Outcome) (result : ModuleResult) : Prop :=
  ∃ module frame inside, k.prepare caller callee = .ok (module, frame, inside) ∧
    let body := (module selector payload).perform callee inside
    body.value = result ∧ (.entered inside frame selector payload ::
      (body.journal ++ [.left body.kernel frame result])) <:+: r.journal

variable {k : Kernel} {caller : Option Key} {callee : Key} {selector : Selector} {payload : Bytes}
  {r : Run Outcome} {result other : ModuleResult}

theorem Ran.unique (ran : k.Ran caller callee selector payload r result)
    (again : k.Ran caller callee selector payload r other) : other = result := by
  obtain ⟨module, frame, inside, prepared, rfl, -⟩ := ran
  obtain ⟨_, _, _, prepared_again, rfl, -⟩ := again
  rw [prepared] at prepared_again
  cases prepared_again
  rfl

theorem Ran.active (ran : k.Ran caller callee selector payload r result) :
    r.activations ≠ [] := by
  obtain ⟨module, frame, inside, -, -, within⟩ := ran
  have entered : Moment.entered inside frame selector payload ∈ r.journal :=
    within.subset List.mem_cons_self
  exact List.ne_nil_of_mem (List.mem_filterMap.mpr ⟨_, entered, rfl⟩)

theorem Ran.reports (ran : k.Ran caller callee selector payload r result)
    (value : r.value = result.outcome) :
    r.Reports (k.Ran caller callee selector payload r) :=
  .of_ran value ran.active ran fun _ => ran.unique

theorem dispatch_reports (k : Kernel) (caller target : Key) (selector : Selector)
    (payload : Bytes) :
    let r := k.dispatch caller (.call target selector payload)
    r.Reports ((k.grounded caller).Ran (some caller) target selector payload r) := by
  dsimp only
  cases verdict : k.verdict caller (.call target selector payload) with
  | error refusal =>
    rw [dispatch_of_refused verdict]
    exact .of_rejected rfl rfl fun result ran => ran.active rfl
  | ok =>
    cases prepared : (k.grounded caller).prepare (some caller) target with
    | error obstacle =>
      rw [dispatch_of_blocked verdict prepared]
      exact .of_rejected rfl rfl fun result ran => ran.active rfl
    | ok ready =>
      obtain ⟨module, frame, inside⟩ := ready
      rw [dispatch_of_prepared verdict prepared]
      refine Ran.reports ⟨module, frame, inside, prepared, rfl, ?_⟩ rfl
      -- The moments of the target stand between the attempt and the return of the call.
      refine List.infix_cons (List.IsPrefix.isInfix ?_)
      simp [List.cons_prefix_cons, List.prefix_append_right_inj]

theorem invoke_reports (k : Kernel) (target : Option Key) (selector : Selector)
    (payload : Bytes) :
    let r := k.invoke target selector payload
    r.Reports fun result =>
      ∃ t, target.or k.entry = some t ∧ k.Ran none t selector payload r result := by
  dsimp only
  rcases k.invoke_entry target selector payload with ⟨-, silent⟩ | ⟨t, chosen, live, -⟩
  · rw [silent]
    exact .of_rejected rfl rfl fun result ⟨t, _, ran⟩ => ran.active rfl
  · suffices reports : (k.invoke target selector payload).Reports
        (k.Ran none t selector payload (k.invoke target selector payload)) by
      simpa [chosen] using reports
    cases prepared : k.prepare none t with
    | error obstacle =>
      rw [invoke_of_blocked chosen live prepared]
      exact .of_rejected rfl rfl fun result ran => ran.active rfl
    | ok ready =>
      obtain ⟨module, frame, inside⟩ := ready
      rw [invoke_of_prepared chosen live prepared]
      exact Ran.reports ⟨module, frame, inside, prepared, rfl, List.infix_refl _⟩ rfl

theorem enterWithin_tells {budget : Nat} {f : Failure}
    (h : enterWithin budget k caller callee selector payload = some r)
    (failed : r.value = .error f) : f.code ≠ .success := by
  cases budget with
  | zero => cases h
  | succ budget =>
    cases enters_of_enterWithin h with
    | blocked =>
      cases failed
      exact Failure.code_rejected_ne _ _
    | @ran module frame inside inner prepared run =>
      dsimp only at failed
      cases result : inner.value with
      | ok =>
        rw [result] at failed
        cases failed
      | error given =>
        rw [result] at failed
        cases failed
        exact given.asFailure_ne

theorem dispatch_tells {self : Key} {s : Syscall} {f : Failure}
    (failed : (k.dispatch self s).value = .error f) : f.code ≠ .success := by
  obtain ⟨inner, performs, whole⟩ := performs_of_dispatchWith (dispatchWith_budget k self s)
  rw [whole] at failed
  cases performs with
  | refused | failed =>
    cases failed
    exact Failure.code_rejected_ne _ _
  | committed => cases failed
  | called _ calls =>
    obtain ⟨entered, run, rfl⟩ := calls.from_grounded (enterWithin_balanced _)
    exact enterWithin_tells run failed

theorem execute_success_iff (k : Kernel) (self : Key) (s : Syscall) :
    (k.execute self s).value = .success ↔ ∃ data, (k.dispatch self s).value = .ok data := by
  simp only [execute, Run.map]
  cases outcome : (k.dispatch self s).value with
  | ok data => simp [Outcome.code]
  | error f => simpa [Outcome.code] using dispatch_tells outcome

end Kernel

namespace Program

inductive Reaches (self : Key) : Program → Kernel → Program → Kernel → Prop where
  | here {program : Program} {k : Kernel} : Reaches self program k program k
  | ask {k now : Kernel} {query : Query} {next : query.Answer → Program} {rest : Program}
      (later : Reaches self (next (k.answer self query)) k rest now) :
      Reaches self (.ask query next) k rest now
  | note {k now : Kernel} {remark : Note} {next rest : Program}
      (later : Reaches self next k rest now) : Reaches self (.note remark next) k rest now
  | syscall {k now : Kernel} {s : Syscall} {next : Outcome → Program} {rest : Program}
      (later : Reaches self (next (k.dispatch self s).value) (k.dispatch self s).kernel rest now) :
      Reaches self (.syscall s next) k rest now

variable {self : Key} {program rest : Program} {k now : Kernel} {s : Syscall} {f : Failure}

theorem Reaches.value (reaches : Reaches self program k rest now) :
    (program.perform self k).value = (rest.perform self now).value := by
  induction reaches with
  | here => rfl
  | ask _ ih | note _ ih | syscall _ ih => exact ih

/-- An activation makes a syscall in the course of its program, and answers the failure of it by
giving back the code of that failure, whatever it does before it does so. -/
def Relays (self : Key) (program : Program) (k : Kernel) (s : Syscall) (now : Kernel) : Prop :=
  ∃ next, Reaches self program k (.syscall s next) now ∧
    ∀ f, (now.dispatch self s).value = .error f →
      ((next (.error f)).perform self (now.dispatch self s).kernel).value = .error f.code

theorem Relays.value (relays : Relays self program k s now)
    (failed : (now.dispatch self s).value = .error f) :
    (program.perform self k).value = .error f.code := by
  obtain ⟨next, reaches, answers⟩ := relays
  rw [reaches.value, perform, Run.after, failed]
  exact answers f failed

theorem Relays.outcome (relays : Relays self program k s now)
    (failed : (now.dispatch self s).value = .error f) :
    (program.perform self k).value.outcome = .error (.reverted f.code) := by
  rw [relays.value failed, ModuleResult.outcome,
    ResultCode.asFailure_of_ne (Kernel.dispatch_tells failed)]

theorem relays_forward (self : Key) (s : Syscall) (k : Kernel) : (forward s).Relays self k s k :=
  ⟨_, .here, fun _ _ => rfl⟩

end Program

namespace Kernel

def Links (k : Kernel) (caller : Option Key) (callee : Key) (selector : Selector)
    (payload : Bytes) (s : Syscall) (now : Kernel) : Prop :=
  ∃ module frame inside, k.prepare caller callee = .ok (module, frame, inside) ∧
    (module selector payload).Relays callee inside s now

/-- A syscall that fails because of a failure `count` calls further in: each of these calls enters a
module that relays the failure of the next. -/
inductive Chain (f : Failure) : Nat → Kernel → Key → Syscall → Prop where
  | last {k : Kernel} {caller : Key} {s : Syscall}
      (failed : (k.dispatch caller s).value = .error f) : Chain f 0 k caller s
  | link {count : Nat} {k now : Kernel} {caller target : Key} {selector : Selector}
      {payload : Bytes} {s : Syscall}
      (admitted : k.verdict caller (.call target selector payload) = .ok ())
      (links : (k.grounded caller).Links (some caller) target selector payload s now)
      (inner : Chain f count now target s) :
      Chain f (count + 1) k caller (.call target selector payload)

variable {f : Failure} {count : Nat} {k now : Kernel} {self : Key} {s : Syscall}

theorem Chain.code (chain : Chain f count k self s) :
    ∃ outer, (k.dispatch self s).value = .error outer ∧ outer.code = f.code := by
  induction chain with
  | last failed => exact ⟨f, failed, rfl⟩
  | link admitted links inner ih =>
    obtain ⟨outer, failed, same⟩ := ih
    obtain ⟨module, frame, inside, prepared, relays⟩ := links
    refine ⟨.reverted outer.code, ?_, same⟩
    rw [dispatch_of_prepared admitted prepared]
    exact relays.outcome failed

theorem Chain.invoke {target : Option Key} {selector : Selector} {payload : Bytes}
    (chain : Chain f count now self s) (chosen : target.or k.entry = some self)
    (links : k.Links none self selector payload s now) :
    (k.invoke target selector payload).value = .error (.reverted f.code) := by
  obtain ⟨outer, failed, same⟩ := chain.code
  obtain ⟨module, frame, inside, prepared, relays⟩ := links
  rw [invoke_of_prepared chosen (contains_of_prepare prepared) prepared, ← same]
  exact relays.outcome failed

theorem results_pass_unchanged (k : Kernel) :
    (∀ caller target selector payload,
      let r := k.dispatch caller (.call target selector payload)
      r.Reports ((k.grounded caller).Ran (some caller) target selector payload r)) ∧
    (∀ target selector payload,
      let r := k.invoke target selector payload
      r.Reports fun result =>
        ∃ t, target.or k.entry = some t ∧ k.Ran none t selector payload r result) ∧
    (∀ self s,
      (k.execute self s).value = .success ↔ ∃ data, (k.dispatch self s).value = .ok data) ∧
    (∀ f count self s, Chain f count k self s →
      ∃ outer, (k.dispatch self s).value = .error outer ∧ outer.code = f.code) ∧
    ∀ f count target self selector payload s now, target.or k.entry = some self →
      k.Links none self selector payload s now → Chain f count now self s →
      (k.invoke target selector payload).value = .error (.reverted f.code) := by
  refine ⟨k.dispatch_reports, k.invoke_reports, k.execute_success_iff, ?_, ?_⟩
  · intro f count self s chain
    exact chain.code
  · intro f count target self selector payload s now chosen links chain
    exact chain.invoke chosen links

-- A herald has a runner sent to a sentry, who turns everyone away under a code of their choice.
def herald : Key := ⟨[104, 101, 114, 97, 108, 100], by simp, by simp⟩

def runner : Key := ⟨[114, 117, 110, 110, 101, 114], by simp, by simp⟩

def sentry : Key := ⟨[115, 101, 110, 116, 114, 121], by simp, by simp⟩

def passTo (target : Key) : Module := fun selector payload =>
  .forward (.call target selector payload)

def relay : Kernel where
  table := Table.history [.create herald (.ofUInt64 1) [.call [runner]],
    .create runner (.ofUInt64 2) [.call [sentry]], .create sentry (.ofUInt64 3) []]
  entry := some herald
  frames := .empty
  config := {}
  host := Host.empty
    |>.install (.ofUInt64 1) (passTo runner)
    |>.install (.ofUInt64 2) (passTo sentry)
    |>.install (.ofUInt64 3) fun _ payload => .done (.error ⟨payload.headD 0⟩)

-- A failure of code zero passes through two calls, and the outside world gets it under 0xff.
theorem results_pass_unchanged_relay :
    relay.Links none herald ⟨0⟩ [] (.call runner ⟨0⟩ []) (relay.grounded herald) ∧
    Chain (.reverted ⟨0xff⟩) 1 (relay.grounded herald) herald (.call runner ⟨0⟩ []) ∧
    (relay.invoke none ⟨0⟩ []).value = .error (.reverted ⟨0xff⟩) := by
  have links : relay.Links none herald ⟨0⟩ [] (.call runner ⟨0⟩ []) (relay.grounded herald) := by
    refine ⟨_, _, _, rfl, ?_⟩
    exact Program.relays_forward _ _ _
  have chain : Chain (.reverted ⟨0xff⟩) 1 (relay.grounded herald) herald
      (.call runner ⟨0⟩ []) := by
    refine .link rfl ⟨_, _, _, rfl, Program.relays_forward _ (.call sentry ⟨0⟩ []) _⟩ ?_
    exact .last rfl
  exact ⟨links, chain, (results_pass_unchanged relay).2.2.2.2 _ _ _ _ _ _ _ _ rfl links chain⟩

end Kernel

end RefMonitor
