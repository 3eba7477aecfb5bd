set_option autoImplicit false

namespace RefMonitor

def ofBigEndian (bytes : List UInt8) : Nat :=
  bytes.foldl (fun n b => 256 * n + b.toNat) 0

def toBigEndian : (width : Nat) → (n : Nat) → List UInt8
  | 0, _ => []
  | width + 1, n => toBigEndian width (n / 256) ++ [UInt8.ofNat n]

@[simp] theorem length_toBigEndian (width n : Nat) : (toBigEndian width n).length = width := by
  induction width generalizing n with
  | zero => rfl
  | succ width ih => simp [toBigEndian, ih]

@[simp] theorem ofBigEndian_nil : ofBigEndian [] = 0 := rfl

theorem ofBigEndian_append_singleton (bytes : List UInt8) (b : UInt8) :
    ofBigEndian (bytes ++ [b]) = 256 * ofBigEndian bytes + b.toNat := by
  simp [ofBigEndian]

-- The byte-wise sum of two byte strings of one length, carried from the right, and the carry
-- that leaves on the left.
def addBigEndian : List UInt8 → List UInt8 → List UInt8 × Nat
  | a :: as, b :: bs =>
    let low := addBigEndian as bs
    let sum := a.toNat + b.toNat + low.2
    (UInt8.ofNat sum :: low.1, sum / 256)
  | _, _ => ([], 0)

theorem length_addBigEndian (as bs : List UInt8) (h : as.length = bs.length) :
    (addBigEndian as bs).1.length = as.length := by
  induction as generalizing bs with
  | nil => cases bs <;> simp_all [addBigEndian]
  | cons a as ih =>
    cases bs with
    | nil => simp at h
    | cons b bs => simpa [addBigEndian] using ih bs (by simpa using h)

end RefMonitor
