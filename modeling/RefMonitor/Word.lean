import RefMonitor.Radix
import RefMonitor.Text

set_option autoImplicit false

namespace RefMonitor

/-- A 256-bit unsigned number as its 32 bytes, most significant first. -/
structure Word where
  bytes : List UInt8
  length_bytes : bytes.length = 32
  deriving DecidableEq

namespace Word

theorem ext {a b : Word} (h : a.bytes = b.bytes) : a = b := by
  cases a; cases b; simp_all

def width : Nat := 32

def toNat (w : Word) : Nat := ofBigEndian w.bytes

-- The word of `n` modulo 2^256.
def ofNat (n : Nat) : Word := ⟨toBigEndian 32 n, length_toBigEndian 32 n⟩

def rightAligned (bytes : List UInt8) (h : bytes.length ≤ 32) : Word :=
  ⟨List.replicate (32 - bytes.length) 0 ++ bytes, by simp; omega⟩

def ofUInt64 (n : UInt64) : Word := rightAligned (toBigEndian 8 n.toNat) (by simp)

def ofUInt128 (n : BitVec 128) : Word := rightAligned (toBigEndian 16 n.toNat) (by simp)

def zero : Word := ⟨List.replicate 32 0, by simp⟩

def max : Word := ⟨List.replicate 32 255, by simp⟩

instance : Inhabited Word := ⟨zero⟩

def ofBytes? (bytes : List UInt8) : Option Word :=
  if h : bytes.length = 32 then some ⟨bytes, h⟩ else none

def isZero (w : Word) : Bool := w.bytes.all (· == 0)

def toUInt64? (w : Word) : Option UInt64 :=
  if (w.bytes.take 24).all (· == 0) then some (UInt64.ofNat (ofBigEndian (w.bytes.drop 24)))
  else none

def toSize? (bits : Nat) (w : Word) : Option (BitVec bits) :=
  w.toUInt64?.bind fun n =>
    if n.toNat ≤ (BitVec.allOnes bits).toNat then some (BitVec.ofNat bits n.toNat) else none

def add? (a b : Word) : Option Word :=
  let sum := addBigEndian a.bytes b.bytes
  if sum.2 = 0 then
    some ⟨sum.1, by rw [length_addBigEndian _ _ (a.length_bytes.trans b.length_bytes.symm)]
                    exact a.length_bytes⟩
  else none

-- Bytes of one length compare from the left as their numbers do.
instance : Ord Word := ⟨compareOn Word.bytes⟩

instance : LT Word := ltOfOrd

instance : LE Word := leOfOrd

instance : Std.TransOrd Word := inferInstanceAs (Std.TransCmp (compareOn Word.bytes))

instance : Std.LawfulEqOrd Word where
  eq_of_compare h := ext (Std.LawfulEqCmp.eq_of_compare (show compare _ _ = _ from h))

def byte (w : Word) (i : Fin 32) : UInt8 := w.bytes.get (i.cast w.length_bytes.symm)

def set (w : Word) (i : Fin 32) (b : UInt8) : Word := ⟨w.bytes.set i b, by simp [w.length_bytes]⟩

/-- A sum in the making: the bytes that are done, at the end of a word, and the carry that goes into
the byte before them. -/
structure Ripple where
  out : Word
  carry : UInt16

def Ripple.step (a b : Word) (i : Fin 32) (r : Ripple) : Ripple :=
  let sum := (a.byte i).toUInt16 + (b.byte i).toUInt16 + r.carry
  ⟨r.out.set i sum.toUInt8, sum >>> 8⟩

def Ripple.run (a b : Word) : Ripple :=
  Nat.foldRev 32 (fun i inside r => r.step a b ⟨i, inside⟩) ⟨zero, 0⟩

def rippleAdd? (a b : Word) : Option Word :=
  let last := Ripple.run a b
  if last.carry ≠ 0 then none else some last.out

def text (w : Word) : String :=
  "0x" ++ Hex.shortest (w.bytes.flatMap Hex.nibbles)

instance : ToString Word := ⟨text⟩

def debugText (w : Word) : String := "Word(" ++ w.text ++ ")"

def fullText (w : Word) : String := Hex.ofBytes w.bytes

def ofText? (text : String) : Option Word :=
  match text.toList with
  | '0' :: 'x' :: digits =>
    match Hex.nat? (String.ofList digits) with
    | some n => if (ofNat n).toNat = n then some (ofNat n) else none
    | none => none
  | _ => none

def printed (w : Word) : String := "0x" ++ String.ofList (Hex.printed w.bytes)

end Word

end RefMonitor
