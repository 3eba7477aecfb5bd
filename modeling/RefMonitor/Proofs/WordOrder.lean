import Mathlib.Algebra.Group.Nat.Defs
import RefMonitor.Capability.Basic

set_option autoImplicit false

namespace RefMonitor

theorem foldl_ofBigEndian (bytes : List UInt8) (start : Nat) :
    bytes.foldl (fun n b => 256 * n + b.toNat) start =
      256 ^ bytes.length * start + ofBigEndian bytes := by
  induction bytes generalizing start with
  | nil => simp
  | cons b bytes ih =>
    have head := ih (256 * start + b.toNat)
    have zero := ih b.toNat
    simp only [ofBigEndian, List.foldl_cons, List.length_cons, Nat.pow_succ, Nat.mul_zero,
      Nat.zero_add] at *
    rw [head, zero, Nat.mul_add, Nat.mul_assoc, Nat.add_assoc]

theorem ofBigEndian_cons (b : UInt8) (bytes : List UInt8) :
    ofBigEndian (b :: bytes) = 256 ^ bytes.length * b.toNat + ofBigEndian bytes := by
  have h := foldl_ofBigEndian bytes b.toNat
  simpa [ofBigEndian] using h

theorem ofBigEndian_lt (bytes : List UInt8) : ofBigEndian bytes < 256 ^ bytes.length := by
  induction bytes with
  | nil => simp
  | cons b bytes ih =>
    have small : b.toNat + 1 ≤ 256 := b.toNat_lt
    have scaled := Nat.mul_le_mul_left (256 ^ bytes.length) small
    rw [ofBigEndian_cons, List.length_cons, Nat.pow_succ]
    rw [Nat.mul_add] at scaled
    omega

theorem ofBigEndian_eq_zero_iff (bytes : List UInt8) :
    ofBigEndian bytes = 0 ↔ ∀ b ∈ bytes, b = 0 := by
  induction bytes with
  | nil => simp
  | cons b bytes ih =>
    have digit : b.toNat = 0 ↔ b = 0 := by
      rw [← UInt8.toNat_inj]
      rfl
    rw [ofBigEndian_cons, Nat.add_eq_zero_iff, ih, Nat.mul_eq_zero, digit]
    simp

theorem toNat_pos {b : UInt8} (nonzero : b ≠ 0) : 0 < b.toNat :=
  Nat.pos_of_ne_zero fun zero => nonzero (UInt8.toNat_inj.mp zero)

theorem compare_toNat (a b : UInt8) : compare a b = compare a.toNat b.toNat := by
  change compareOfLessAndEq a b = compareOfLessAndEq a.toNat b.toNat
  simp only [compareOfLessAndEq, UInt8.lt_iff_toNat_lt, UInt8.toNat_inj]

theorem compare_ofBigEndian {as bs : List UInt8} (same : as.length = bs.length) :
    compare as bs = compare (ofBigEndian as) (ofBigEndian bs) := by
  induction as generalizing bs with
  | nil =>
    cases bs with
    | nil => rfl
    | cons b bs => simp at same
  | cons a as ih =>
    cases bs with
    | nil => simp at same
    | cons b bs =>
      have tails : as.length = bs.length := by simpa using same
      have left := ofBigEndian_lt as
      have right := ofBigEndian_lt bs
      rw [← tails] at right
      rw [List.compare_cons_cons, compare_toNat, ih tails, ofBigEndian_cons, ofBigEndian_cons,
        ← tails]
      rcases Nat.lt_trichotomy a.toNat b.toNat with less | equal | more
      · have scaled := Nat.mul_le_mul_left (256 ^ as.length) less
        have whole : 256 ^ as.length * a.toNat + ofBigEndian as <
            256 ^ as.length * b.toNat + ofBigEndian bs := by
          rw [Nat.mul_succ] at scaled
          omega
        rw [Nat.compare_eq_lt.mpr less, Nat.compare_eq_lt.mpr whole]
        rfl
      · rw [equal, Nat.compare_eq_eq.mpr rfl, Ordering.eq_then]
        simp only [Nat.compare_eq_ite_lt, Nat.add_lt_add_iff_left]
      · have scaled := Nat.mul_le_mul_left (256 ^ as.length) more
        have whole : 256 ^ as.length * b.toNat + ofBigEndian bs <
            256 ^ as.length * a.toNat + ofBigEndian as := by
          rw [Nat.mul_succ] at scaled
          omega
        rw [Nat.compare_eq_gt.mpr more, Nat.compare_eq_gt.mpr whole]
        rfl

theorem ofBigEndian_addBigEndian {as bs : List UInt8} (same : as.length = bs.length) :
    ofBigEndian (addBigEndian as bs).1 + 256 ^ as.length * (addBigEndian as bs).2 =
      ofBigEndian as + ofBigEndian bs := by
  induction as generalizing bs with
  | nil =>
    cases bs with
    | nil => rfl
    | cons b bs => simp at same
  | cons a as ih =>
    cases bs with
    | nil => simp at same
    | cons b bs =>
      have tails : as.length = bs.length := by simpa using same
      have rest := ih tails
      have width := length_addBigEndian as bs tails
      have digit (n : Nat) : (UInt8.ofNat n).toNat + 256 * (n / 256) = n := by
        rw [UInt8.toNat_ofNat']
        omega
      have carried := digit (a.toNat + b.toNat + (addBigEndian as bs).2)
      simp only [addBigEndian, ofBigEndian_cons, List.length_cons, width, ← tails, Nat.pow_succ]
      generalize (a.toNat + b.toNat + (addBigEndian as bs).2) / 256 = carry at *
      have scaled := congrArg (256 ^ as.length * ·) carried
      simp only [Nat.mul_add, ← Nat.mul_assoc] at scaled ⊢
      omega

namespace Word

theorem toNat_lt (w : Word) : w.toNat < 2 ^ 256 := by
  have h := ofBigEndian_lt w.bytes
  rw [w.length_bytes] at h
  exact h

theorem compare_iff (a b : Word) : compare a b = compare a.toNat b.toNat :=
  compare_ofBigEndian (a.length_bytes.trans b.length_bytes.symm)

theorem lt_iff (a b : Word) : a < b ↔ a.toNat < b.toNat := by
  rw [← Nat.compare_eq_lt, ← compare_iff]
  rfl

theorem le_iff (a b : Word) : a ≤ b ↔ a.toNat ≤ b.toNat := by
  rw [← Nat.isLE_compare, ← compare_iff]
  rfl

theorem isZero_iff (w : Word) : w.isZero = true ↔ w.toNat = 0 := by
  simp [isZero, toNat, ofBigEndian_eq_zero_iff]

theorem add?_eq_some {a b c : Word} (h : a.add? b = some c) : c.toNat = a.toNat + b.toNat := by
  have sum := ofBigEndian_addBigEndian (a.length_bytes.trans b.length_bytes.symm)
  unfold add? at h
  dsimp only at h
  split at h
  next carry =>
    cases h
    rw [carry] at sum
    simpa [toNat] using sum
  next => cases h

theorem add?_eq_none {a b : Word} (h : a.add? b = none) : 2 ^ 256 ≤ a.toNat + b.toNat := by
  have sum := ofBigEndian_addBigEndian (a.length_bytes.trans b.length_bytes.symm)
  unfold add? at h
  dsimp only at h
  split at h
  next => cases h
  next carry =>
    have scaled := Nat.mul_le_mul_left (256 ^ 32) (Nat.one_le_iff_ne_zero.mpr carry)
    rw [a.length_bytes] at sum
    simp only [toNat]
    omega

end Word

theorem inRange_iff (address size slot : Word) :
    inRange address size slot = true ↔
      address.toNat ≤ slot.toNat ∧ slot.toNat < address.toNat + size.toNat := by
  have top := slot.toNat_lt
  unfold inRange
  split
  next outside =>
    simp only [Bool.or_eq_true, Word.isZero_iff, decide_eq_true_eq, Word.lt_iff] at outside
    simp
    omega
  next inside =>
    simp only [Bool.or_eq_true, Word.isZero_iff, decide_eq_true_eq, Word.lt_iff] at inside
    split
    next finish sum =>
      simp only [decide_eq_true_eq, Word.lt_iff, Word.add?_eq_some sum]
      omega
    next sum =>
      have past := Word.add?_eq_none sum
      simp
      omega

-- A range that ends past the last word has the end of any range that does.
theorem rangeWithin_iff (address size outer outerSize : Word) :
    rangeWithin address size outer outerSize = true ↔
      size.toNat = 0 ∨ outerSize.toNat ≠ 0 ∧ outer.toNat ≤ address.toNat ∧
        (2 ^ 256 ≤ outer.toNat + outerSize.toNat ∨
          address.toNat + size.toNat ≤ outer.toNat + outerSize.toNat) := by
  unfold rangeWithin
  split
  next empty => simp [Word.isZero_iff _ |>.mp empty]
  next nonempty =>
    rw [Word.isZero_iff] at nonempty
    split
    next apart =>
      simp only [Bool.or_eq_true, Word.isZero_iff, decide_eq_true_eq, Word.lt_iff] at apart
      simp
      omega
    next near =>
      simp only [Bool.or_eq_true, Word.isZero_iff, decide_eq_true_eq, Word.lt_iff] at near
      split
      next outerSum =>
        have past := Word.add?_eq_none outerSum
        simp
        omega
      next outerFinish sum outerSum =>
        have past := Word.add?_eq_none sum
        have top := outerFinish.toNat_lt
        rw [Word.add?_eq_some outerSum] at top
        simp
        omega
      next finish outerFinish sum outerSum =>
        have top := outerFinish.toNat_lt
        rw [Word.add?_eq_some outerSum] at top
        simp only [decide_eq_true_eq, Word.le_iff, Word.add?_eq_some sum,
          Word.add?_eq_some outerSum]
        omega

end RefMonitor
