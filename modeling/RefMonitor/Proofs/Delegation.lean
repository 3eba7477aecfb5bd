import RefMonitor.Proofs.Authority

set_option autoImplicit false

namespace RefMonitor

namespace Held

def checkGrants (held : Held) (grants : List Capability) : Except Denied Unit :=
  match held.firstUncovered? grants with
  | some i => .error (.amplification i)
  | none => .ok ()

theorem authorize_register (held : Held) (target : Key) (grants : List Capability) :
    held.authorize (.register target grants) =
      (held.authorize (.register target [])).bind fun _ => held.checkGrants grants := by
  have name : held.permits (.register target grants) = held.permits (.register target []) := rfl
  by_cases present : held.holds .register = true
  · by_cases inside : held.permits (.register target []) = true
    · have nothing : held.firstUncovered? [] = none := rfl
      simp only [authorize, Request.strandsEntry, Request.operation, name, present, inside, nothing]
      cases uncovered : held.firstUncovered? grants <;> simp [checkGrants, uncovered, Except.bind]
    · simp [authorize, Request.strandsEntry, Request.operation, name, present, inside, Except.bind]
  · simp [authorize, Request.strandsEntry, Request.operation, present, Except.bind]

theorem checkGrants_eq_ok_iff (held : Held) (grants : List Capability) :
    held.checkGrants grants = .ok () ↔ (ofList grants).Within held := by
  rw [Within, caps_ofList, ← firstUncovered?_eq_none_iff, checkGrants]
  cases held.firstUncovered? grants <;> simp

end Held

namespace Capability

theorem isSubsetOf_preorder :
    (∀ c : Capability, c.isSubsetOf c = true) ∧
    (∀ a b c : Capability, a.isSubsetOf b = true → b.isSubsetOf c = true →
      a.isSubsetOf c = true) ∧
    ∀ (held middle : Held) (grants : List Capability),
      held.checkGrants middle.caps = .ok () → middle.checkGrants grants = .ok () →
        held.checkGrants grants = .ok () := by
  refine ⟨isSubsetOf_refl, fun a b c inner outer => isSubsetOf_trans inner outer, ?_⟩
  intro held middle grants first second
  rw [Held.checkGrants_eq_ok_iff] at first second ⊢
  have handed : middle.Within held := by
    simpa [Held.Within] using first
  exact second.trans handed

def landlord : Held := .ofList [.write (.ofUInt64 16) .max, .log []]

def tenant : Held := .ofList [.log [.max], .write (.ofUInt64 32) (.ofUInt64 8)]

def lodging : List Capability :=
  [.write .zero .zero, .log [.max], .write (.ofUInt64 39) (.ofUInt64 1)]

theorem isSubsetOf_preorder_lodging :
    landlord.checkGrants tenant.caps = .ok () ∧ tenant.checkGrants lodging = .ok () ∧
      landlord.checkGrants lodging = .ok () := by
  have first : landlord.checkGrants tenant.caps = .ok () := rfl
  have second : tenant.checkGrants lodging = .ok () := rfl
  exact ⟨first, second, isSubsetOf_preorder.2.2 landlord tenant lodging first second⟩

end Capability

end RefMonitor
