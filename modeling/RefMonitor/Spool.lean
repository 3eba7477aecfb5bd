import Mathlib.Algebra.Group.Nat.Defs
import RefMonitor.Console
import RefMonitor.Text

set_option autoImplicit false

namespace RefMonitor

/-- A console as it is stored: the bytes of its text, and the number of bytes given up as a count of
64 bits. -/
structure Spool where
  bytes : List UInt8
  capacity : Nat
  dropped : Nat
  deriving DecidableEq

namespace Spool

def empty (capacity : Nat) : Spool := ⟨[], capacity, 0⟩

def ofConsole (c : Console) : Spool := ⟨utf8 c.text, c.capacity, c.dropped⟩

-- Whether a character begins or the text ends at a position. The bytes from 128 to 191 go on with a
-- character that began before.
def isBoundary (bytes : List UInt8) (position : Nat) : Bool :=
  position == 0 ||
    match bytes[position]? with
    | some b => b < 128 || 192 ≤ b
    | none => position == bytes.length

-- Past the end of the bytes there is no boundary, and a search that gets there does not end.
def boundary? (bytes : List UInt8) (position : Nat) : Option Nat :=
  if isBoundary bytes position then some position
  else if position < bytes.length then boundary? bytes (position + 1)
  else none
termination_by bytes.length - position

def write? (s : Spool) (bytes : List UInt8) : Option Spool :=
  let whole := s.bytes ++ bytes
  if whole.length ≤ s.capacity then some { s with bytes := whole }
  else
    (boundary? whole (whole.length - s.capacity)).bind fun cut =>
      if s.dropped + cut < 2 ^ 64 then
        some { s with bytes := whole.drop cut, dropped := s.dropped + cut }
      else none

def serve? (s : Spool) : List Console.Request → Option (List (List UInt8) × Spool)
  | [] => some ([], s)
  | .write text :: requests => (s.write? (utf8 text)).bind fun next => next.serve? requests
  | .take :: requests =>
    (serve? { s with bytes := [] } requests).map fun (taken, last) => (s.bytes :: taken, last)

end Spool

end RefMonitor
