set_option autoImplicit false

namespace RefMonitor

def utf8 (text : String) : List UInt8 := text.toList.flatMap String.utf8EncodeChar

theorem utf8_append (s t : String) : utf8 (s ++ t) = utf8 s ++ utf8 t := by
  simp [utf8]

namespace Hex

def digit (n : Nat) : Char :=
  if n < 10 then Char.ofNat (48 + n) else Char.ofNat (87 + n)

def value? (c : Char) : Option Nat :=
  if '0' ≤ c ∧ c ≤ '9' then some (c.toNat - 48)
  else if 'a' ≤ c ∧ c ≤ 'f' then some (c.toNat - 87)
  else if 'A' ≤ c ∧ c ≤ 'F' then some (c.toNat - 55)
  else none

def nibbles (b : UInt8) : List Nat := [b.toNat / 16, b.toNat % 16]

def ofBytes (bytes : List UInt8) : String :=
  String.ofList ((bytes.flatMap nibbles).map digit)

def shortest (digits : List Nat) : String :=
  match digits.dropWhile (· == 0) with
  | [] => "0"
  | kept => String.ofList (kept.map digit)

private def pairs : List Nat → Option (List UInt8)
  | [] => some []
  | [_] => none
  | high :: low :: rest => (pairs rest).map (UInt8.ofNat (16 * high + low) :: ·)

def bytes? (text : String) : Option (List UInt8) :=
  (text.toList.mapM value?).bind pairs

def nat? (text : String) : Option Nat :=
  match text.toList.mapM value? with
  | none | some [] => none
  | some digits => some (digits.foldl (fun n d => 16 * n + d) 0)

def least (b : UInt8) : List Char := Nat.toDigits 16 b.toNat

def pair (b : UInt8) : List Char := (least b).leftpad 2 '0'

-- Bytes are printed from the first that is not zero on, and only that one without padding.
def printed (bytes : List UInt8) : List Char :=
  match bytes.dropWhile (· == 0) with
  | [] => ['0']
  | first :: rest => least first ++ rest.flatMap pair

end Hex

-- A quote, a backslash and the control characters of ASCII are written as escapes; an
-- apostrophe stands for itself.
def Quoted.escape (c : Char) : List Char :=
  if c = '"' then ['\\', '"']
  else if c = '\\' then ['\\', '\\']
  else if c = '\t' then ['\\', 't']
  else if c = '\r' then ['\\', 'r']
  else if c = '\n' then ['\\', 'n']
  else if c.toNat < 0x20 ∨ c.toNat = 0x7f then
    "\\u\x7b".toList ++ (Hex.shortest [c.toNat / 16, c.toNat % 16]).toList ++ ['\x7d']
  else [c]

def quoted (text : String) : String :=
  String.ofList ('"' :: text.toList.flatMap Quoted.escape ++ ['"'])

end RefMonitor
