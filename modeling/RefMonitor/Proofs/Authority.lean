import RefMonitor.Capability.Authorize
import RefMonitor.Proofs.WordOrder

set_option autoImplicit false

namespace RefMonitor

theorem inScope_iff (scope : List Key) (target : Key) :
    inScope scope target = true ↔ scope = [] ∨ target ∈ scope := by
  simp [inScope, List.isEmpty_iff]

theorem scopeWithin_iff (scope outer : List Key) :
    scopeWithin scope outer = true ↔ outer = [] ∨ scope ≠ [] ∧ ∀ key ∈ scope, key ∈ outer := by
  by_cases wild : outer = []
  · simp [scopeWithin, wild]
  · simp [scopeWithin, wild, List.isEmpty_iff]

theorem scopeWithin_refl (scope : List Key) : scopeWithin scope scope = true := by
  by_cases wild : scope = [] <;> simp [scopeWithin_iff, wild]

theorem scopeWithin_trans {a b c : List Key} (inner : scopeWithin a b = true)
    (outer : scopeWithin b c = true) : scopeWithin a c = true := by
  rw [scopeWithin_iff] at *
  rcases outer with wild | ⟨listed, names⟩
  · exact .inl wild
  · rcases inner with wild | ⟨named, within⟩
    · exact absurd wild listed
    · exact .inr ⟨named, fun key member => names key (within key member)⟩

theorem inScope_of_scopeWithin {scope outer : List Key} (within : scopeWithin scope outer = true)
    {target : Key} (listed : inScope scope target = true) : inScope outer target = true := by
  rw [scopeWithin_iff] at within
  rw [inScope_iff] at *
  rcases within with wild | ⟨named, names⟩
  · exact .inl wild
  · rcases listed with wild | member
    · exact absurd wild named
    · exact .inr (names target member)

theorem rangeWithin_trans {a m b n c k : Word} (inner : rangeWithin a m b n = true)
    (outer : rangeWithin b n c k = true) : rangeWithin a m c k = true := by
  rw [rangeWithin_iff] at *
  omega

theorem inRange_of_rangeWithin {address size outer outerSize slot : Word}
    (within : rangeWithin address size outer outerSize = true)
    (inside : inRange address size slot = true) : inRange outer outerSize slot = true := by
  have top := slot.toNat_lt
  rw [rangeWithin_iff] at within
  rw [inRange_iff] at *
  omega

namespace Capability

theorem isSubsetOf_refl (c : Capability) : c.isSubsetOf c = true := by
  cases c with
  | write address size =>
    rw [isSubsetOf, rangeWithin_iff]
    omega
  | log topics => simp [isSubsetOf]
  | setEntry => rfl
  | call scope | delete scope | register scope => exact scopeWithin_refl scope

theorem operation_eq_of_isSubsetOf {c d : Capability} (subset : c.isSubsetOf d = true) :
    c.operation = d.operation := by
  cases c <;> cases d <;> first | rfl | cases subset

theorem isSubsetOf_trans {a b c : Capability} (inner : a.isSubsetOf b = true)
    (outer : b.isSubsetOf c = true) : a.isSubsetOf c = true := by
  cases a <;> cases b <;> simp only [isSubsetOf, Bool.false_eq_true] at inner <;>
    cases c <;> simp only [isSubsetOf, Bool.false_eq_true] at outer
  case write => exact rangeWithin_trans inner outer
  case log topics middle last =>
    simp only [Bool.or_eq_true, List.isEmpty_iff, beq_iff_eq] at inner outer
    rcases outer with wild | rfl
    · simp [isSubsetOf, wild]
    · rcases inner with wild | rfl <;> simp [isSubsetOf, *]
  case setEntry => rfl
  all_goals exact scopeWithin_trans inner outer

theorem permitsWrite_of_isSubsetOf {c d : Capability} (subset : c.isSubsetOf d = true)
    {slot : Word} (permitted : c.permitsWrite slot = true) : d.permitsWrite slot = true := by
  cases c <;> cases d <;> simp only [isSubsetOf, Bool.false_eq_true] at subset <;>
    first | exact inRange_of_rangeWithin subset permitted | cases permitted

-- An exact topic list of more than four would be allowed what no wildcard is.
theorem permitsLog_of_isSubsetOf {c d : Capability} (valid : c.Valid)
    (subset : c.isSubsetOf d = true) {emitted : List Word}
    (permitted : c.permitsLog emitted = true) : d.permitsLog emitted = true := by
  cases c <;> cases d <;> simp only [isSubsetOf, Bool.false_eq_true] at subset <;>
    try cases permitted
  case log topics outer =>
    simp only [Bool.or_eq_true, List.isEmpty_iff, beq_iff_eq] at subset
    rcases subset with rfl | rfl
    · have few : topics.length ≤ maxTopics := by simpa [Valid, fault?] using valid
      cases topics with
      | nil => exact permitted
      | cons topic topics =>
        have same : topic :: topics = emitted := by simpa [permitsLog] using permitted
        simpa [permitsLog, ← same] using few
    · exact permitted

theorem permitsProcedure_of_isSubsetOf {c d : Capability} (subset : c.isSubsetOf d = true)
    {target : Key} (permitted : c.permitsProcedure target = true) :
    d.permitsProcedure target = true := by
  cases c <;> cases d <;> simp only [isSubsetOf, Bool.false_eq_true] at subset <;>
    first | exact permitted | exact inScope_of_scopeWithin subset permitted

theorem permits_of_isSubsetOf {c d : Capability} (valid : c.Valid) (subset : c.isSubsetOf d = true)
    {request : Request} (permitted : c.permits request = true) : d.permits request = true := by
  cases request with
  | write address => exact permitsWrite_of_isSubsetOf subset permitted
  | log emitted => exact permitsLog_of_isSubsetOf valid subset permitted
  | setEntry => rfl
  | call target | delete target entry | register target grants =>
    exact permitsProcedure_of_isSubsetOf subset permitted

end Capability

theorem Operation.bit_and_bit (op other : Operation) :
    other.bit &&& op.bit = if other = op then op.bit else 0 := by
  cases op <;> cases other <;> rfl

theorem Operation.bit_or_iff (kinds : UInt8) (op other : Operation) :
    (kinds ||| other.bit) &&& op.bit = op.bit ↔ kinds &&& op.bit = op.bit ∨ other = op := by
  have split : (kinds ||| other.bit) &&& op.bit = (kinds &&& op.bit) ||| (other.bit &&& op.bit) :=
    UInt8.toBitVec_inj.mp BitVec.and_or_distrib_right
  rw [split, bit_and_bit]
  by_cases same : other = op
  · subst same
    simp only [if_true, or_true, iff_true]
    apply UInt8.toBitVec_inj.mp
    ext i
    simp
  · simp [same]

def Request.grants : Request → List Capability
  | .register _ grants => grants
  | .write _ | .log _ | .call _ | .delete .. | .setEntry => []

namespace Held

theorem foldl_bit_iff (caps : List Capability) (kinds : UInt8) (op : Operation) :
    caps.foldl (fun kinds c => kinds ||| c.operation.bit) kinds &&& op.bit = op.bit ↔
      kinds &&& op.bit = op.bit ∨ ∃ c ∈ caps, c.operation = op := by
  induction caps generalizing kinds with
  | nil => simp
  | cons c caps ih => simp [ih, Operation.bit_or_iff, or_assoc]

theorem holds_iff {held : Held} (summarized : held.kinds = summary held.caps) (op : Operation) :
    held.holds op = true ↔ ∃ c ∈ held.caps, c.operation = op := by
  have nothing : (0 : UInt8) ≠ op.bit := by cases op <;> decide
  simp [holds, summarized, summary, foldl_bit_iff, nothing]

theorem covers_iff (held : Held) (grant : Capability) :
    held.covers grant = true ↔ ∃ c ∈ held.caps, grant.isSubsetOf c = true := by
  simp only [covers, forOperation, List.any_filter, List.any_eq_true, Bool.and_eq_true, beq_iff_eq]
  constructor
  · rintro ⟨c, member, -, subset⟩
    exact ⟨c, member, subset⟩
  · rintro ⟨c, member, subset⟩
    exact ⟨c, member, (Capability.operation_eq_of_isSubsetOf subset).symm, subset⟩

theorem permits_iff {held : Held} (summarized : held.kinds = summary held.caps)
    (request : Request) :
    held.holds request.operation = true ∧ held.permits request = true ↔
      ∃ c ∈ held.caps, c.operation = request.operation ∧ c.permits request = true := by
  cases request with
  | setEntry => simp [holds_iff summarized, permits, Capability.permits]
  | write address | log topics | call target | delete target entry | register target grants =>
    simp only [holds_iff summarized, permits, forOperation, List.any_filter, List.any_eq_true,
      Bool.and_eq_true, beq_iff_eq]
    constructor
    · exact And.right
    · rintro ⟨c, member, same, permitted⟩
      exact ⟨⟨c, member, same⟩, c, member, same, permitted⟩

theorem firstUncovered?_eq_none_iff (held : Held) (grants : List Capability) :
    held.firstUncovered? grants = none ↔
      ∀ grant ∈ grants, ∃ c ∈ held.caps, grant.isSubsetOf c = true := by
  simp [firstUncovered?, List.findIdx?_eq_none_iff, covers_iff]

theorem authorize_iff {held : Held} (summarized : held.kinds = summary held.caps)
    (request : Request) :
    held.authorize request = .ok () ↔
      request.strandsEntry = false ∧
      (∃ c ∈ held.caps, c.operation = request.operation ∧ c.permits request = true) ∧
      ∀ grant ∈ request.grants, ∃ c ∈ held.caps, grant.isSubsetOf c = true := by
  rw [← permits_iff summarized]
  by_cases stranded : request.strandsEntry = true
  · simp [authorize, stranded]
  by_cases present : held.holds request.operation = true
  · by_cases inside : held.permits request = true
    · cases request with
      | register target grants =>
        rw [Request.grants, ← firstUncovered?_eq_none_iff]
        cases uncovered : held.firstUncovered? grants <;>
          simp [authorize, stranded, present, inside, uncovered]
      | write address | log topics | call target | delete target entry | setEntry =>
        simp [authorize, stranded, present, inside, Request.grants]
    · simp [authorize, stranded, present, inside]
  · simp [authorize, stranded, present]

def Within (inner outer : Held) : Prop :=
  ∀ c ∈ inner.caps, ∃ d ∈ outer.caps, c.isSubsetOf d = true

theorem Within.refl (held : Held) : held.Within held :=
  fun c member => ⟨c, member, c.isSubsetOf_refl⟩

theorem Within.trans {a b c : Held} (inner : a.Within b) (outer : b.Within c) : a.Within c := by
  intro x member
  obtain ⟨y, inside, subset⟩ := inner x member
  obtain ⟨z, last, whole⟩ := outer y inside
  exact ⟨z, last, Capability.isSubsetOf_trans subset whole⟩

theorem Within.permitting {inner outer : Held} (within : inner.Within outer)
    (valid : ∀ c ∈ inner.caps, c.Valid) {op : Operation} {request : Request}
    (permitted : ∃ c ∈ inner.caps, c.operation = op ∧ c.permits request = true) :
    ∃ c ∈ outer.caps, c.operation = op ∧ c.permits request = true := by
  obtain ⟨c, member, same, allowed⟩ := permitted
  obtain ⟨d, outside, subset⟩ := within c member
  refine ⟨d, outside, ?_, Capability.permits_of_isSubsetOf (valid c member) subset allowed⟩
  rw [← same]
  exact (Capability.operation_eq_of_isSubsetOf subset).symm

theorem Within.authorize {inner outer : Held} (within : inner.Within outer)
    (valid : ∀ c ∈ inner.caps, c.Valid) (innerBits : inner.kinds = summary inner.caps)
    (outerBits : outer.kinds = summary outer.caps) {request : Request}
    (allowed : inner.authorize request = .ok ()) : outer.authorize request = .ok () := by
  rw [authorize_iff innerBits] at allowed
  rw [authorize_iff outerBits]
  obtain ⟨free, permitted, covered⟩ := allowed
  refine ⟨free, within.permitting valid permitted, ?_⟩
  intro grant member
  obtain ⟨c, inside, subset⟩ := covered grant member
  obtain ⟨d, outside, whole⟩ := within c inside
  exact ⟨d, outside, Capability.isSubsetOf_trans subset whole⟩

end Held

end RefMonitor
