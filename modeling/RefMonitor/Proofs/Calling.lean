import RefMonitor.Proofs.Activity
import RefMonitor.Proofs.Budget

set_option autoImplicit false

namespace RefMonitor

def Program.forward (s : Syscall) : Program :=
  .syscall s fun outcome => .done (outcome.mapError Failure.code)

theorem Program.perform_activity (self : Key) (program : Program) (k : Kernel) :
    Activity self k (program.perform self k).journal (program.perform self k).kernel := by
  induction program generalizing k with
  | done => exact .done
  | ask query next ih => exact .ask (ih _ k)
  | note remark next ih => exact .note (ih k)
  | syscall request next ih =>
    apply Kernel.dispatchWith_activity (Kernel.enterWithin_nests _) (Kernel.enterWithin_balanced _)
      (Kernel.dispatchWith_budget k self request)
    exact ih _ _

namespace Kernel

@[simp] theorem grounded_grounded (k : Kernel) (caller : Key) :
    (k.grounded caller).grounded caller = k.grounded caller := by
  cases outside : k.frames.isEmpty with
  | true =>
    rw [grounded_outside outside]
    exact grounded_inside rfl caller
  | false => simp only [grounded_inside outside]

@[simp] theorem verdict_grounded (k : Kernel) (caller : Key) (s : Syscall) :
    (k.grounded caller).verdict caller s = k.verdict caller s := by
  rw [grounded_eq]
  rfl

variable {k : Kernel} {caller target : Key} {selector : Selector} {payload : Bytes}

theorem contains_of_prepare {caller? : Option Key} {ready : Module × Frame × Kernel}
    (prepared : k.prepare caller? target = .ok ready) : k.table.contains target = true := by
  have prepares := k.prepares caller? target
  rw [prepared] at prepares
  cases prepares with
  | ready found =>
    obtain ⟨position, placed, -⟩ := Option.bind_eq_some_iff.mp found
    rw [Table.contains, Std.ExtTreeMap.contains_eq_isSome_getElem?, placed]
    rfl

section

variable (admitted : k.verdict caller (.call target selector payload) = .ok ())
include admitted

theorem dispatch_of_admitted :
    ∃ entered, enterWithin k.budget (k.grounded caller) (some caller) target selector payload =
        some entered ∧
      k.dispatch caller (.call target selector payload) =
        ⟨entered.value, { entered.kernel with frames := k.frames },
          .attempted k caller (.call target selector payload) (.ok ()) :: (entered.journal ++
            [.settled { entered.kernel with frames := k.frames } caller
              (.call target selector payload) entered.value])⟩ := by
  obtain ⟨inner, performs, whole⟩ := performs_of_dispatchWith
    (dispatchWith_budget k caller (.call target selector payload))
  cases performs with
  | refused refused =>
    rw [admitted] at refused
    cases refused
  | failed _ failed => cases failed
  | committed _ effective => exact absurd rfl effective
  | called _ calls =>
    obtain ⟨entered, run, rfl⟩ := calls.from_grounded (enterWithin_balanced _)
    rw [whole, admitted]
    exact ⟨entered, run, rfl⟩

theorem dispatch_of_blocked {obstacle : Obstacle}
    (blocked : (k.grounded caller).prepare (some caller) target = .error obstacle) :
    k.dispatch caller (.call target selector payload) =
      ⟨.error (.rejected .call obstacle.rejection), k,
        [.attempted k caller (.call target selector payload) (.ok ()),
          .blocked (k.grounded caller) target obstacle,
          .settled k caller (.call target selector payload)
            (.error (.rejected .call obstacle.rejection))]⟩ := by
  obtain ⟨entered, run, whole⟩ := dispatch_of_admitted admitted
  rw [whole]
  cases enters_of_enterWithin run with
  | blocked again =>
    rw [blocked] at again
    cases again
    simp only [grounded_restored]
    rfl
  | ran prepared =>
    rw [blocked] at prepared
    cases prepared

theorem dispatch_of_prepared {module : Module} {frame : Frame} {inside : Kernel}
    (prepared : (k.grounded caller).prepare (some caller) target = .ok (module, frame, inside)) :
    let body := (module selector payload).perform target inside
    k.dispatch caller (.call target selector payload) =
      ⟨body.value.outcome, { body.kernel with frames := k.frames },
        .attempted k caller (.call target selector payload) (.ok ()) ::
          .entered inside frame selector payload :: (body.journal ++
            [.left body.kernel frame body.value,
              .settled { body.kernel with frames := k.frames } caller
                (.call target selector payload) body.value.outcome])⟩ := by
  obtain ⟨entered, run, whole⟩ := dispatch_of_admitted admitted
  rw [whole]
  cases enters_of_enterWithin run with
  | blocked blocked =>
    rw [prepared] at blocked
    cases blocked
  | ran again inner =>
    rw [prepared] at again
    cases again
    rw [Program.perform_of_run inner]
    simp

end

end Kernel

end RefMonitor
