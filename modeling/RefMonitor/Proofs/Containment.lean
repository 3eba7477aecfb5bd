import RefMonitor.Proofs.Authority
import RefMonitor.Proofs.WordNumber

set_option autoImplicit false

namespace RefMonitor

-- The first and the last slot of a range decide whether all of it lies inside another.
theorem rangeWithin_iff_forall (address size outer outerSize : Word) :
    rangeWithin address size outer outerSize = true ↔
      ∀ slot, inRange address size slot = true → inRange outer outerSize slot = true := by
  constructor
  · intro within slot
    exact inRange_of_rangeWithin within
  · intro inside
    rw [rangeWithin_iff]
    by_cases empty : size.toNat = 0
    · exact .inl empty
    have start := address.toNat_lt
    have first := inside address
    have last := inside (.ofNat (min (address.toNat + size.toNat) (2 ^ 256) - 1))
    simp only [inRange_iff, Word.toNat_ofNat] at first last
    rw [Nat.mod_eq_of_lt (by omega)] at last
    omega

theorem scopeWithin_iff_forall (scope outer : List Key) :
    scopeWithin scope outer = true ↔
      (scope = [] → outer = []) ∧
        ∀ key, inScope scope key = true → inScope outer key = true := by
  simp only [scopeWithin_iff, inScope_iff]
  constructor
  · rintro (wild | ⟨named, names⟩)
    · simp [wild]
    · exact ⟨fun wild => absurd wild named,
        fun key listed => .inr (names key (listed.resolve_left named))⟩
  · rintro ⟨wild, names⟩
    by_cases listed : outer = []
    · exact .inl listed
    · exact .inr ⟨fun all => listed (wild all),
        fun key member => (names key (.inr member)).resolve_left listed⟩

namespace Capability

theorem exists_permitsWrite_iff (address size : Word) (n : Nat) :
    (∃ slot : Word, slot.toNat = n ∧ (write address size).permitsWrite slot = true) ↔
      address.toNat ≤ n ∧ n < min (address.toNat + size.toNat) (2 ^ 256) := by
  simp only [permitsWrite, inRange_iff]
  constructor
  · rintro ⟨slot, rfl, start, finish⟩
    have top := slot.toNat_lt
    omega
  · rintro ⟨start, finish⟩
    have value : (Word.ofNat n).toNat = n := by
      rw [Word.toNat_ofNat, Nat.mod_eq_of_lt (by omega)]
    exact ⟨.ofNat n, value, by omega, by omega⟩

/-- A write scope is cut off at 2^256 and never continued from zero. -/
theorem write_scope_exact (address size : Word) :
    (∀ slot, (write address size).permitsWrite slot = true ↔
      address.toNat ≤ slot.toNat ∧ slot.toNat < address.toNat + size.toNat) ∧
    (∀ n, (∃ slot : Word, slot.toNat = n ∧ (write address size).permitsWrite slot = true) ↔
      address.toNat ≤ n ∧ n < min (address.toNat + size.toNat) (2 ^ 256)) ∧
    (size = .zero → ∀ slot, (write address size).permitsWrite slot = false) ∧
    (2 ^ 256 ≤ address.toNat + size.toNat →
      ∀ slot, (write address size).permitsWrite slot = true ↔ address.toNat ≤ slot.toNat) := by
  have range (slot : Word) := inRange_iff address size slot
  refine ⟨range, exists_permitsWrite_iff address size, ?_, ?_⟩
  · rintro rfl slot
    have nothing : (Word.zero).toNat = 0 := rfl
    rw [← Bool.not_eq_true, permitsWrite, range]
    omega
  · intro past slot
    have top := slot.toNat_lt
    rw [permitsWrite, range]
    omega

-- Two slots from the last one on: the second would be slot zero.
theorem write_scope_exact_top :
    (write .max (.ofNat 2)).permitsWrite .max = true ∧
    (write .max (.ofNat 2)).permitsWrite .zero = false ∧
    ∀ slot, (write .max .zero).permitsWrite slot = false := by
  obtain ⟨-, -, -, past⟩ := write_scope_exact .max (.ofNat 2)
  obtain ⟨-, -, nothing, -⟩ := write_scope_exact .max .zero
  have slots := past (by decide +kernel)
  refine ⟨(slots .max).mpr (Nat.le_refl _), ?_, nothing rfl⟩
  rw [← Bool.not_eq_true, slots]
  decide +kernel

def scope? : Capability → Option (List Key)
  | .call procedures | .delete procedures | .register procedures => some procedures
  | .write .. | .log _ | .setEntry => none

def WildInListed (c d : Capability) : Prop :=
  c.scope? = some [] ∧ ∃ key keys, d.scope? = some (key :: keys)

structure PermitsWithin (c d : Capability) : Prop where
  slots : ∀ slot, c.permitsWrite slot = true → d.permitsWrite slot = true
  logs : ∀ emitted, c.permitsLog emitted = true → d.permitsLog emitted = true
  procedures : ∀ key, c.permitsProcedure key = true → d.permitsProcedure key = true

theorem permitsWithin_of_isSubsetOf {c d : Capability} (valid : c.Valid)
    (subset : c.isSubsetOf d = true) : c.PermitsWithin d where
  slots _ := permitsWrite_of_isSubsetOf subset
  logs _ := permitsLog_of_isSubsetOf valid subset
  procedures _ := permitsProcedure_of_isSubsetOf subset

theorem not_wildInListed_of_isSubsetOf {c d : Capability} (subset : c.isSubsetOf d = true) :
    ¬ c.WildInListed d := by
  rintro ⟨wild, key, keys, listed⟩
  cases c <;> cases d <;> cases wild <;> cases listed <;> cases subset

theorem isSubsetOf_of_permitsWithin {c d : Capability} (same : c.operation = d.operation)
    (unlisted : ¬ c.WildInListed d) (within : c.PermitsWithin d) : c.isSubsetOf d = true := by
  have scopes {scope outer : List Key} (inner : c.scope? = some scope)
      (outside : d.scope? = some outer) (wild : scope = []) : outer = [] := by
    cases outer with
    | nil => rfl
    | cons key keys => exact absurd ⟨wild ▸ inner, key, keys, outside⟩ unlisted
  cases c <;> cases d <;> simp only [operation, reduceCtorEq] at same
  case write address size outer outerSize =>
    exact (rangeWithin_iff_forall ..).mpr within.slots
  case log topics outer =>
    cases outer with
    | nil => rfl
    | cons topic outer =>
      have own : (Capability.log topics).permitsLog topics = true := by
        cases topics <;> simp [permitsLog]
      simpa [permitsLog, isSubsetOf] using within.logs topics own
  case setEntry => rfl
  all_goals exact (scopeWithin_iff_forall ..).mpr ⟨scopes rfl rfl, within.procedures⟩

/-- A scope of all names is never a part of one that lists names, whatever names those are. -/
theorem isSubsetOf_exact (c d : Capability) :
    (c.operation ≠ d.operation → c.isSubsetOf d = false) ∧
    (c.operation = d.operation → c.Valid →
      (c.isSubsetOf d = true ↔ ¬ c.WildInListed d ∧ c.PermitsWithin d)) := by
  constructor
  · intro different
    rw [← Bool.not_eq_true]
    exact fun subset => different (operation_eq_of_isSubsetOf subset)
  · intro same valid
    constructor
    · intro subset
      exact ⟨not_wildInListed_of_isSubsetOf subset, permitsWithin_of_isSubsetOf valid subset⟩
    · rintro ⟨unlisted, within⟩
      exact isSubsetOf_of_permitsWithin same unlisted within

def summit : Capability := .write (.ofNat (2 ^ 256 - 2)) (.ofNat 2)

def overrun : Capability := .write .max (.ofNat 5)

theorem isSubsetOf_exact_summit :
    overrun.Valid ∧ overrun.isSubsetOf summit = true ∧ overrun.PermitsWithin summit := by
  have valid : overrun.Valid := rfl
  have subset : overrun.isSubsetOf summit = true := by decide +kernel
  exact ⟨valid, subset, (((isSubsetOf_exact overrun summit).2 rfl valid).mp subset).2⟩

end Capability

end RefMonitor
