import RefMonitor.Proofs.WordOrder

set_option autoImplicit false

namespace RefMonitor

theorem ofBigEndian_append (high low : List UInt8) :
    ofBigEndian (high ++ low) = 256 ^ low.length * ofBigEndian high + ofBigEndian low := by
  have resumed := foldl_ofBigEndian low (ofBigEndian high)
  simpa [ofBigEndian, List.foldl_append] using resumed

theorem ofBigEndian_toBigEndian (width n : Nat) :
    ofBigEndian (toBigEndian width n) = n % 256 ^ width := by
  induction width generalizing n with
  | zero => simp [toBigEndian, Nat.mod_one]
  | succ width ih =>
    rw [toBigEndian, ofBigEndian_append_singleton, ih, Nat.pow_succ', Nat.mod_mul, Nat.add_comm,
      UInt8.toNat_ofNat']

namespace Word

theorem toNat_inj {a b : Word} : a.toNat = b.toNat ↔ a = b := by
  rw [← Nat.compare_eq_eq, ← compare_iff, Std.compare_eq_iff_eq]

theorem toNat_ofNat (n : Nat) : (ofNat n).toNat = n % 2 ^ 256 := ofBigEndian_toBigEndian 32 n

theorem ofNat_toNat (w : Word) : ofNat w.toNat = w := by
  rw [← toNat_inj, toNat_ofNat, Nat.mod_eq_of_lt w.toNat_lt]

theorem ofNat_inj {m n : Nat} (left : m < 2 ^ 256) (right : n < 2 ^ 256) :
    ofNat m = ofNat n ↔ m = n := by
  rw [← toNat_inj, toNat_ofNat, toNat_ofNat, Nat.mod_eq_of_lt left, Nat.mod_eq_of_lt right]

theorem isZero_iff_eq_zero (w : Word) : w.isZero = true ↔ w = zero := by
  rw [isZero_iff, ← toNat_inj]
  exact Iff.rfl

theorem toNat_rightAligned (bytes : List UInt8) (fits : bytes.length ≤ 32) :
    (rightAligned bytes fits).toNat = ofBigEndian bytes := by
  have padding : ofBigEndian (List.replicate (32 - bytes.length) 0) = 0 := by
    simp [ofBigEndian_eq_zero_iff]
  rw [toNat, rightAligned, ofBigEndian_append, padding, Nat.mul_zero, Nat.zero_add]

theorem toNat_ofUInt64 (n : UInt64) : (ofUInt64 n).toNat = n.toNat := by
  rw [ofUInt64, toNat_rightAligned, ofBigEndian_toBigEndian]
  exact Nat.mod_eq_of_lt n.toNat_lt

theorem toNat_halves (w : Word) :
    w.toNat = 2 ^ 64 * ofBigEndian (w.bytes.take 24) + ofBigEndian (w.bytes.drop 24) := by
  have width : (w.bytes.drop 24).length = 8 := by simp [w.length_bytes]
  have halves := ofBigEndian_append (w.bytes.take 24) (w.bytes.drop 24)
  rwa [List.take_append_drop, width] at halves

theorem toUInt64?_eq_some_iff (w : Word) (n : UInt64) :
    w.toUInt64? = some n ↔ w = ofNat n.toNat := by
  have low : ofBigEndian (w.bytes.drop 24) < 2 ^ 64 := by
    simpa [w.length_bytes] using ofBigEndian_lt (w.bytes.drop 24)
  have high : (w.bytes.take 24).all (· == 0) = true ↔ ofBigEndian (w.bytes.take 24) = 0 := by
    simp [ofBigEndian_eq_zero_iff]
  have whole := w.toNat_halves
  have bound := n.toNat_lt
  rw [← toNat_inj, toNat_ofNat, Nat.mod_eq_of_lt (by omega), toUInt64?]
  split
  next clear =>
    rw [high.mp clear] at whole
    rw [Option.some_inj, ← UInt64.toNat_inj, UInt64.toNat_ofNat', Nat.mod_eq_of_lt low]
    omega
  next set =>
    rw [high] at set
    simp only [reduceCtorEq, false_iff]
    omega

theorem map_toUInt64?_eq_some_iff (w : Word) (n : Nat) :
    w.toUInt64?.map UInt64.toNat = some n ↔ n < 2 ^ 64 ∧ w = ofNat n := by
  simp only [Option.map_eq_some_iff, toUInt64?_eq_some_iff]
  constructor
  · rintro ⟨value, rfl, rfl⟩
    exact ⟨value.toNat_lt, rfl⟩
  · rintro ⟨small, rfl⟩
    have value : (UInt64.ofNat n).toNat = n := UInt64.toNat_ofNat_of_lt' small
    exact ⟨UInt64.ofNat n, by rw [value], value⟩

end Word

end RefMonitor
