import RefMonitor.Capability.Basic

set_option autoImplicit false

namespace RefMonitor

/-- The capabilities of one procedure, in the order they were granted. -/
structure Held where
  caps : List Capability
  kinds : UInt8
  deriving DecidableEq, Inhabited

namespace Held

def empty : Held := ⟨[], 0⟩

def push (held : Held) (c : Capability) : Held :=
  ⟨held.caps ++ [c], held.kinds ||| c.operation.bit⟩

def ofList (caps : List Capability) : Held := caps.foldl push empty

def holds (held : Held) (op : Operation) : Bool := held.kinds &&& op.bit == op.bit

def forOperation (held : Held) (op : Operation) : List Capability :=
  held.caps.filter (·.operation == op)

def summary (caps : List Capability) : UInt8 :=
  caps.foldl (fun kinds c => kinds ||| c.operation.bit) 0

private theorem foldl_push (caps : List Capability) (held : Held) :
    caps.foldl push held =
      ⟨held.caps ++ caps, caps.foldl (fun kinds c => kinds ||| c.operation.bit) held.kinds⟩ := by
  induction caps generalizing held with
  | nil => simp
  | cons c caps ih => simp [ih, push]

@[simp] theorem caps_push (held : Held) (c : Capability) :
    (held.push c).caps = held.caps ++ [c] := rfl

@[simp] theorem caps_ofList (caps : List Capability) : (ofList caps).caps = caps := by
  simp [ofList, foldl_push, empty]

@[simp] theorem kinds_ofList (caps : List Capability) : (ofList caps).kinds = summary caps := by
  simp [ofList, foldl_push, empty, summary]

theorem eq_ofList_iff (held : Held) : held = ofList held.caps ↔ held.kinds = summary held.caps := by
  cases held
  simp [ofList, foldl_push, empty, summary]

end Held

end RefMonitor
