import RefMonitor.Sha256
import RefMonitor.Word

set_option autoImplicit false

namespace RefMonitor

/-- The name of a procedure: up to 24 ASCII characters other than NUL. The empty one is the null
key, which ends a written table and names nothing. -/
structure Key where
  codes : List UInt8
  length_codes : codes.length ≤ 24
  ascii_codes : ∀ c ∈ codes, c ≠ 0 ∧ c < 128
  deriving DecidableEq

inductive KeyError where
  | empty
  | tooLong
  | notAscii
  | interiorNul
  | misaligned
  deriving DecidableEq

def KeyError.message : KeyError → String
  | .empty => "procedure name is empty"
  | .tooLong => "procedure name exceeds 24 bytes"
  | .notAscii => "procedure name is not ASCII"
  | .interiorNul => "procedure name contains a NUL byte"
  | .misaligned => "word does not hold a left-aligned key"

namespace Key

theorem ext {a b : Key} (h : a.codes = b.codes) : a = b := by
  cases a; cases b; simp_all

def width : Nat := 24

def null : Key := ⟨[], by simp, by simp⟩

instance : Inhabited Key := ⟨null⟩

def isNull (k : Key) : Bool := k.codes.isEmpty

theorem isNull_iff {k : Key} : k.isNull = true ↔ k = null := by
  constructor
  · intro h; exact ext (List.isEmpty_iff.mp h)
  · rintro rfl; rfl

def ofName (name : String) : Except KeyError Key :=
  let codes := utf8 name
  if codes = [] then .error .empty
  else if hl : codes.length ≤ 24 then
    if ha : codes.all (· < 128) then
      if hz : codes.all (· != 0) then
        .ok ⟨codes, hl, fun c h => ⟨by simpa using List.all_eq_true.mp hz c h,
          by simpa using List.all_eq_true.mp ha c h⟩⟩
      else .error .interiorNul
    else .error .notAscii
  else .error .tooLong

def name (k : Key) : String := String.ofList (k.codes.map fun c => Char.ofNat c.toNat)

instance : ToString Key := ⟨name⟩

def debugText (k : Key) : String := "ProcedureKey(" ++ quoted k.name ++ ")"

def padded (k : Key) : List UInt8 := k.codes ++ List.replicate (24 - k.codes.length) 0

theorem length_padded (k : Key) : k.padded.length = 24 := by
  have := k.length_codes
  simp [padded]; omega

theorem takeWhile_padded (k : Key) : k.padded.takeWhile (· != 0) = k.codes := by
  have named : ∀ c ∈ k.codes, (c != 0) = true := fun c h => by simpa using (k.ascii_codes c h).1
  rw [padded, List.takeWhile_append_of_pos named]
  cases 24 - k.codes.length <;> simp [List.replicate]

def toWord (k : Key) : Word :=
  ⟨k.padded ++ List.replicate 8 0, by simp [length_padded]⟩

-- The zero word gives the null key.
def ofWord (w : Word) : Except KeyError Key :=
  let high := w.bytes.take 24
  let codes := high.takeWhile (· != 0)
  if !(w.bytes.drop 24).all (· == 0) then .error .misaligned
  else if ha : high.all (· < 128) then
    if (high.dropWhile (· != 0)).all (· == 0) then
      .ok ⟨codes,
        Nat.le_trans (List.takeWhile_sublist _).length_le (List.length_take_le 24 w.bytes),
        fun c h => ⟨by simpa using List.all_eq_true.mp (List.all_takeWhile (l := high)) c h,
          by simpa using List.all_eq_true.mp ha c ((List.takeWhile_sublist _).subset h)⟩⟩
    else .error .interiorNul
  else .error .notAscii

instance : Ord Key := ⟨compareOn Key.padded⟩

instance : Std.TransOrd Key := inferInstanceAs (Std.TransCmp (compareOn Key.padded))

instance : Std.LawfulEqOrd Key where
  eq_of_compare {a b} h := by
    have same : a.padded = b.padded := Std.LawfulEqCmp.eq_of_compare (show compare _ _ = _ from h)
    exact ext (by rw [← takeWhile_padded a, ← takeWhile_padded b, same])

end Key

structure Selector where
  code : UInt32
  deriving DecidableEq, Inhabited

namespace Selector

def bytes (s : Selector) : List UInt8 := toBigEndian 4 s.code.toNat

def ofBytes (bytes : List UInt8) : Selector := ⟨UInt32.ofNat (ofBigEndian bytes)⟩

def ofSignature (signature : String) : Selector :=
  ofBytes ((Sha256.digest (utf8 signature)).take 4)

def hexText (s : Selector) : String := Hex.ofBytes s.bytes

def debugText (s : Selector) : String := "Selector(0x" ++ s.hexText ++ ")"

def ofHex? (text : String) : Option Selector :=
  match Hex.bytes? text with
  | some bytes => if bytes.length = 4 then some (ofBytes bytes) else none
  | none => none

end Selector

structure Location where
  word : Word
  deriving DecidableEq, Inhabited

namespace Location

def ofUInt64 (n : UInt64) : Location := ⟨.ofUInt64 n⟩

def text (l : Location) : String := "@" ++ l.word.text

instance : ToString Location := ⟨text⟩

instance : Ord Location := ⟨compareOn Location.word⟩

instance : Std.TransOrd Location := inferInstanceAs (Std.TransCmp (compareOn Location.word))

instance : Std.LawfulEqOrd Location where
  eq_of_compare {a b} h := by
    have same : a.word = b.word := Std.LawfulEqCmp.eq_of_compare (show compare _ _ = _ from h)
    cases a; cases b; simp_all

end Location

end RefMonitor
