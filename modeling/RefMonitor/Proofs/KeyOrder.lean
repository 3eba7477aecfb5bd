import RefMonitor.Proofs.KeyName
import RefMonitor.Proofs.WordOrder

set_option autoImplicit false

namespace RefMonitor

theorem compare_zero_left {b : UInt8} (unbroken : b ≠ 0) : compare 0 b = .lt := by
  rw [compare_toNat, Nat.compare_eq_lt]
  exact toNat_pos unbroken

theorem compare_zero_right {a : UInt8} (unbroken : a ≠ 0) : compare a 0 = .gt := by
  rw [Std.OrientedOrd.eq_swap, compare_zero_left unbroken]
  rfl

-- Up to one width, byte strings without zeros compare as they do when zeros fill them up. Where one
-- ends first, its padding meets a byte of the other, or both are padding from there on.
theorem compare_padding {width : Nat} {as bs : List UInt8} (left : as.length ≤ width)
    (right : bs.length ≤ width) (unbroken : ∀ a ∈ as, a ≠ 0) (whole : ∀ b ∈ bs, b ≠ 0) :
    compare (as ++ List.replicate (width - as.length) 0)
      (bs ++ List.replicate (width - bs.length) 0) = compare as bs := by
  induction width generalizing as bs with
  | zero =>
    obtain rfl := List.eq_nil_of_length_eq_zero (Nat.le_zero.mp left)
    obtain rfl := List.eq_nil_of_length_eq_zero (Nat.le_zero.mp right)
    rfl
  | succ width ih =>
    cases as with
    | nil =>
      cases bs with
      | nil => simp only [Std.ReflCmp.compare_self]
      | cons b bs =>
        have first := compare_zero_left (whole b (List.mem_cons_self ..))
        simp only [List.nil_append, List.length_nil, Nat.sub_zero, List.replicate_succ,
          List.cons_append, List.compare_cons_cons, List.compare_nil_cons, first]
        rfl
    | cons a as =>
      cases bs with
      | nil =>
        have first := compare_zero_right (unbroken a (List.mem_cons_self ..))
        simp only [List.nil_append, List.length_nil, Nat.sub_zero, List.replicate_succ,
          List.cons_append, List.compare_cons_cons, List.compare_cons_nil, first]
        rfl
      | cons b bs =>
        rw [List.forall_mem_cons] at unbroken whole
        have rest := ih (Nat.le_of_succ_le_succ left) (Nat.le_of_succ_le_succ right)
          unbroken.2 whole.2
        simp only [List.cons_append, List.length_cons, Nat.add_sub_add_right,
          List.compare_cons_cons, rest]

namespace Key

theorem compare_padded (k l : Key) : compare k.padded l.padded = compare k.codes l.codes :=
  compare_padding k.length_codes l.length_codes (fun c member => (k.ascii_codes c member).1)
    (fun c member => (l.ascii_codes c member).1)

theorem padded_inj {k l : Key} : k.padded = l.padded ↔ k = l := by
  constructor
  · intro same
    have equal : compare k.padded l.padded = .eq := Std.compare_eq_iff_eq.mpr same
    rw [compare_padded] at equal
    exact ext (Std.compare_eq_iff_eq.mp equal)
  · rintro rfl
    rfl

/-- It is by their padded bytes that keys are ordered. -/
theorem naming_keeps_order :
    (∀ s t k l, ofName s = .ok k → ofName t = .ok l →
      compare k.padded l.padded = compare (utf8 s) (utf8 t) ∧ (k.padded = l.padded ↔ s = t)) ∧
    (∀ s k, ofName s = .ok k → compare null.padded k.padded = .lt) ∧
    ∀ k l : Key, compare k l = compare k.padded l.padded := by
  refine ⟨?_, ?_, fun _ _ => rfl⟩
  · intro s t k l made other
    have codes := ((ofName_eq_ok_iff_codes ..).mp made).2
    have otherCodes := ((ofName_eq_ok_iff_codes ..).mp other).2
    refine ⟨by rw [compare_padded, codes, otherCodes], ?_⟩
    rw [padded_inj]
    constructor
    · rintro rfl
      rw [← ((ofName_eq_ok_iff ..).mp made).2, ((ofName_eq_ok_iff ..).mp other).2]
    · rintro rfl
      exact Except.ok.inj (made.symm.trans other)
  · intro s k made
    have named := ((ofName_eq_ok_iff_codes ..).mp made).1
    rw [compare_padded]
    cases codes : k.codes with
    | nil => exact absurd (ext codes) named
    | cons c rest => exact List.compare_nil_cons

theorem naming_keeps_order_extended :
    ∃ k l, ofName "prior-of-the-scriptoriu" = .ok k ∧ ofName "prior-of-the-scriptorium" = .ok l ∧
      compare k.padded l.padded = .lt ∧ k.padded ≠ l.padded ∧
      compare null.padded k.padded = .lt := by
  have shorter : Namable "prior-of-the-scriptoriu" := by constructor <;> decide +kernel
  have longer : Namable "prior-of-the-scriptorium" := by constructor <;> decide +kernel
  obtain ⟨k, made⟩ := (exists_ofName_iff _).mpr shorter
  obtain ⟨l, other⟩ := (exists_ofName_iff _).mpr longer
  obtain ⟨order, same⟩ := naming_keeps_order.1 _ _ k l made other
  refine ⟨k, l, made, other, ?_, ?_, naming_keeps_order.2.1 _ k made⟩
  · rw [order]
    decide +kernel
  · rw [ne_eq, same]
    decide

end Key

end RefMonitor
