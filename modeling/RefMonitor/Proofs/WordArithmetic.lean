import RefMonitor.Proofs.WordNumber
import RefMonitor.Word

set_option autoImplicit false

namespace RefMonitor

theorem foldRev_induction {α : Type} {P : Nat → α → Prop} {n : Nat}
    {f : (i : Nat) → i < n → α → α} {start : α} (initial : P n start)
    (step : ∀ i inside s, P (i + 1) s → P i (f i inside s)) : P 0 (n.foldRev f start) := by
  induction n generalizing start with
  | zero => exact initial
  | succ n ih =>
    rw [Nat.foldRev_succ]
    exact ih (step n _ start initial) fun i inside s => step i _ s

namespace Word

def numberFrom (w : Word) (i : Nat) : Nat := ofBigEndian (w.bytes.drop i)

theorem numberFrom_zero (w : Word) : w.numberFrom 0 = w.toNat := rfl

@[simp] theorem numberFrom_width (w : Word) : w.numberFrom 32 = 0 := by
  rw [numberFrom, List.drop_eq_nil_of_le (Nat.le_of_eq w.length_bytes), ofBigEndian_nil]

theorem numberFrom_eq (w : Word) (i : Fin 32) :
    w.numberFrom i = 256 ^ (31 - i.val) * (w.byte i).toNat + w.numberFrom (i + 1) := by
  have inside : i.val < w.bytes.length := Nat.lt_of_lt_of_eq i.isLt w.length_bytes.symm
  have rest : (w.bytes.drop (i + 1)).length = 31 - i.val := by
    rw [List.length_drop, w.length_bytes]
    omega
  rw [numberFrom, List.drop_eq_getElem_cons inside, ofBigEndian_cons, rest]
  rfl

@[simp] theorem byte_set (w : Word) (i : Fin 32) (b : UInt8) : (w.set i b).byte i = b :=
  List.getElem_set_self ..

@[simp] theorem numberFrom_set (w : Word) (i : Fin 32) (b : UInt8) :
    (w.set i b).numberFrom (i + 1) = w.numberFrom (i + 1) := by
  simp [numberFrom, set, List.drop_set]

namespace Ripple

/-- The bytes from a position on are added: with the carry, which is 0 or 1, they make up the sum of
the numbers that they stand for. -/
structure Correct (a b : Word) (i : Nat) (r : Ripple) : Prop where
  carry_le : r.carry.toNat ≤ 1
  total : r.out.numberFrom i + 256 ^ (32 - i) * r.carry.toNat = a.numberFrom i + b.numberFrom i

-- Two bytes and a carry never wrap in 16 bits.
theorem toNat_sum (x y : UInt8) {carry : UInt16} (small : carry.toNat ≤ 1) :
    (x.toUInt16 + y.toUInt16 + carry).toNat = x.toNat + y.toNat + carry.toNat := by
  have left := x.toNat_lt
  have right := y.toNat_lt
  rw [UInt16.toNat_add, UInt16.toNat_add, UInt8.toNat_toUInt16, UInt8.toNat_toUInt16]
  omega

theorem toNat_halves (n : UInt16) : n.toUInt8.toNat + 256 * (n >>> 8).toNat = n.toNat := by
  have whole := Nat.mod_add_div n.toNat 256
  rw [UInt16.toNat_toUInt8, UInt16.toNat_shiftRight, Nat.shiftRight_eq_div_pow]
  exact whole

theorem Correct.step {a b : Word} {i : Fin 32} {r : Ripple} (correct : r.Correct a b (i + 1)) :
    (r.step a b i).Correct a b i := by
  obtain ⟨small, total⟩ := correct
  have left := (a.byte i).toNat_lt
  have right := (b.byte i).toNat_lt
  have halves := toNat_halves ((a.byte i).toUInt16 + (b.byte i).toUInt16 + r.carry)
  rw [toNat_sum _ _ small] at halves
  constructor
  · simp only [Ripple.step]
    omega
  · -- The step's two halves weigh as much as the bytes and the carry that they replace.
    have before : 32 - (i.val + 1) = 31 - i.val := by omega
    have here : 32 - i.val = 31 - i.val + 1 := by omega
    have scaled := congrArg (256 ^ (31 - i.val) * ·) halves
    simp only [Nat.mul_add, ← Nat.mul_assoc] at scaled
    rw [before] at total
    simp only [Ripple.step, numberFrom_eq _ i, byte_set, numberFrom_set, here, Nat.pow_succ]
    omega

theorem run_correct (a b : Word) : (run a b).Correct a b 0 := by
  have start : Correct a b 32 ⟨zero, 0⟩ := by constructor <;> simp
  refine foldRev_induction start ?_
  intro i inside r correct
  exact Correct.step (i := ⟨i, inside⟩) correct

end Ripple

theorem rippleAdd?_eq (a b : Word) :
    a.rippleAdd? b =
      if a.toNat + b.toNat < 2 ^ 256 then some (ofNat (a.toNat + b.toNat)) else none := by
  have total := (Ripple.run_correct a b).total
  have top := (Ripple.run a b).out.toNat_lt
  simp only [numberFrom_zero, Nat.sub_zero] at total
  rw [rippleAdd?]
  by_cases clear : (Ripple.run a b).carry = 0
  · have none : (Ripple.run a b).carry.toNat = 0 := by
      rw [clear]
      rfl
    rw [none, Nat.mul_zero, Nat.add_zero] at total
    rw [if_neg (fun carried => carried clear), ← total, if_pos top, ofNat_toNat]
  · have carried : (Ripple.run a b).carry.toNat ≠ 0 :=
      fun none => clear (UInt16.toNat_inj.mp none)
    rw [if_pos clear, if_neg (by omega)]

theorem add?_eq (a b : Word) :
    a.add? b =
      if a.toNat + b.toNat < 2 ^ 256 then some (ofNat (a.toNat + b.toNat)) else none := by
  cases sum : a.add? b with
  | none =>
    have past := add?_eq_none sum
    rw [if_neg (by omega)]
  | some c =>
    have value := add?_eq_some sum
    have top := c.toNat_lt
    rw [if_pos (by omega), ← value, ofNat_toNat]

theorem map_toUInt64?_eq_some_iff_toNat (w : Word) (n : Nat) :
    w.toUInt64?.map UInt64.toNat = some n ↔ w.toNat = n ∧ n < 2 ^ 64 := by
  rw [map_toUInt64?_eq_some_iff, and_comm]
  refine and_congr_left fun small => ?_
  rw [← toNat_inj, toNat_ofNat, Nat.mod_eq_of_lt (by omega)]

theorem map_toSize? (w : Word) (bits : Nat) :
    (w.toSize? bits).map BitVec.toNat =
      (w.toUInt64?.map UInt64.toNat).filter (· < 2 ^ bits) := by
  rw [toSize?]
  cases w.toUInt64? with
  | none => rfl
  | some n =>
    have largest : n.toNat ≤ (BitVec.allOnes bits).toNat ↔ n.toNat < 2 ^ bits := by
      rw [BitVec.toNat_allOnes, Nat.le_sub_one_iff_lt (Nat.two_pow_pos bits)]
    simp only [largest, Option.bind_some, Option.map_some, Option.filter]
    by_cases fits : n.toNat < 2 ^ bits
    · simp [fits, Nat.mod_eq_of_lt fits]
    · simp [fits]

theorem map_toSize?_eq_some_iff (w : Word) (bits n : Nat) :
    (w.toSize? bits).map BitVec.toNat = some n ↔ w.toNat = n ∧ n < 2 ^ 64 ∧ n < 2 ^ bits := by
  rw [map_toSize?, Option.filter_eq_some_iff, map_toUInt64?_eq_some_iff_toNat, and_assoc,
    decide_eq_true_eq]

theorem toNat_ofUInt128 (n : BitVec 128) : (ofUInt128 n).toNat = n.toNat := by
  rw [ofUInt128, toNat_rightAligned, ofBigEndian_toBigEndian]
  exact Nat.mod_eq_of_lt n.isLt

theorem arithmetic_exact :
    (∀ w : Word, w.toNat < 2 ^ 256 ∧ ofNat w.toNat = w) ∧
    (∀ n, (ofNat n).toNat = n % 2 ^ 256) ∧
    (∀ a b : Word, a.rippleAdd? b =
      if a.toNat + b.toNat < 2 ^ 256 then some (ofNat (a.toNat + b.toNat)) else none) ∧
    (∀ a b : Word, a.add? b = a.rippleAdd? b) ∧
    (∀ a b : Word, compare a b = compare a.toNat b.toNat) ∧
    (∀ (w : Word) n, w.toUInt64?.map UInt64.toNat = some n ↔ w.toNat = n ∧ n < 2 ^ 64) ∧
    (∀ (w : Word) n, (w.toSize? 64).map BitVec.toNat = some n ↔ w.toNat = n ∧ n < 2 ^ 64) ∧
    (∀ n, (ofUInt64 n).toNat = n.toNat) ∧
    ∀ n, (ofUInt128 n).toNat = n.toNat := by
  refine ⟨fun w => ⟨w.toNat_lt, ofNat_toNat w⟩, toNat_ofNat, rippleAdd?_eq, ?_, compare_iff,
    map_toUInt64?_eq_some_iff_toNat, ?_, toNat_ofUInt64, toNat_ofUInt128⟩
  · intro a b
    rw [add?_eq, rippleAdd?_eq]
  · intro w n
    rw [map_toSize?_eq_some_iff, and_self]

example : (rightAligned (List.replicate 31 255) (by decide)).rippleAdd? (ofUInt64 1) =
    some (ofNat (256 ^ 31)) := by decide +kernel

example : max.rippleAdd? (ofUInt64 1) = none := by decide +kernel

end Word

end RefMonitor
