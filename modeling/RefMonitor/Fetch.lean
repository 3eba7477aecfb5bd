import Mathlib.Algebra.Group.Nat.Defs
import RefMonitor.Program
import RefMonitor.Table.Wire

set_option autoImplicit false

namespace RefMonitor

/-- What stops a reader that fetches words by their positions: an access outside the words, a sum of
2^64 or more, a loop that does not move on. Or it refuses the words, with an error. -/
inductive Stop (ε : Type) where
  | outside
  | overflow
  | stalled
  | refused (error : ε)
  deriving DecidableEq

def Stop.within {ε ε' : Type} (f : ε → ε') : Stop ε → Stop ε'
  | .outside => .outside
  | .overflow => .overflow
  | .stalled => .stalled
  | .refused error => .refused (f error)

-- Reading with positions of 64 bits. A sum or an access that is checked gives an option, one that
-- is not stops the reader where it fails.
namespace Fetch

def sum? (a b : Nat) : Option Nat := if a + b < 2 ^ 64 then some (a + b) else none

def slice? (words : List Word) (start stop : Nat) : Option (List Word) :=
  if start ≤ stop ∧ stop ≤ words.length then some ((words.take stop).drop start) else none

variable {ε : Type}

def sum (a b : Nat) : Except (Stop ε) Nat :=
  match sum? a b with
  | none => .error .overflow
  | some n => .ok n

def word (words : List Word) (position : Nat) : Except (Stop ε) Word :=
  match words[position]? with
  | none => .error .outside
  | some w => .ok w

def slice (words : List Word) (start stop : Nat) : Except (Stop ε) (List Word) :=
  match slice? words start stop with
  | none => .error .outside
  | some part => .ok part

def keys (base i : Nat) : List Word → Except (Stop WireError) (List Key)
  | [] => .ok []
  | w :: ws => do
    let offset ← sum base i
    match Key.ofWord w with
    | .error e => .error (.refused (.badKey offset e))
    | .ok k =>
      if k.isNull then .error (.refused (.badKey offset .empty))
      else (keys base (i + 1) ws).map (k :: ·)

def scope (offset : Nat) (values : List Word) : Except (Stop WireError) (List Key) := do
  let base ← sum offset 2
  keys base 0 values

def capability (offset : Nat) (op : Operation) (values : List Word) :
    Except (Stop WireError) Capability :=
  match op, values with
  | .write, [address, size] => .ok (.write address size)
  | .log, topics =>
    if topics.length ≤ maxTopics then .ok (.log topics)
    else .error (.refused (.badArity offset .log topics.length))
  | .setEntry, [] => .ok .setEntry
  | .call, keys => (scope offset keys).map .call
  | .delete, keys => (scope offset keys).map .delete
  | .register, keys => (scope offset keys).map .register
  | op, values => .error (.refused (.badArity offset op values.length))

def stop? (words : List Word) (offset count : Nat) : Option Nat :=
  ((sum? count 1).bind (sum? offset)).filter (· ≤ words.length)

def block (words : List Word) (offset : Nat) : Except (Stop WireError) (Capability × Nat) :=
  match words[offset]?.bind Word.toUInt64? with
  | none => .error (.refused (.truncated offset))
  | some count =>
    if count = 0 then .error (.refused (.zeroLength offset))
    else match stop? words offset count.toNat with
      | none => .error (.refused (.truncated offset))
      | some stop => do
        let type ← word words (← sum offset 1)
        match type.toUInt64?.bind fun id => Operation.ofWireId? id.toNat with
        | none => .error (.refused (.unknownType offset))
        | some op =>
          let values ← slice words (← sum offset 2) stop
          (capability offset op values).map (·, stop)

def blocks (words : List Word) : (count cursor : Nat) →
    Except (Stop WireError) (List Capability × Nat)
  | 0, cursor => .ok ([], cursor)
  | count + 1, cursor =>
    match block words cursor with
    | .error e => .error e
    | .ok (cap, next) => (blocks words count next).map fun r => (cap :: r.1, r.2)

def list (words : List Word) (cursor : Nat) : Except (Stop WireError) (List Capability) :=
  if cursor < words.length then
    match block words cursor with
    | .error e => .error e
    | .ok (cap, next) =>
      if cursor < next then (list words next).map (cap :: ·) else .error .stalled
  else .ok []
termination_by words.length - cursor

def record (words : List Word) (length cursor : Nat) :
    Except (Stop TableWireError) (Location × Held × Nat) := do
  match slice? words (← sum cursor 1) (← sum cursor 4) with
  | none => .error (.refused (.truncated cursor))
  | some header =>
    let indexWord ← word header 0
    if indexWord.toUInt64?.map UInt64.toNat ≠ some (← sum length 1) then
      .error (.refused (.indexMismatch (← sum cursor 1)))
    else
      let location ← word header 1
      let count ← word header 2
      match count.toUInt64? with
      | none => .error (.refused (.truncated (← sum cursor 3)))
      | some count =>
        match blocks words count.toNat (← sum cursor 4) with
        | .error e => .error (e.within .capability)
        | .ok (caps, next) => .ok (⟨location⟩, .ofList caps, next)

def records (words : List Word) (t : Table) (cursor : Nat) :
    Except (Stop TableWireError) (Table × Nat) :=
  match _ : words[cursor]? with
  | none => .error (.refused (.truncated cursor))
  | some first =>
    if first.isZero then (sum cursor 1).map (t, ·)
    else match Key.ofWord first with
      | .error e => .error (.refused (.badKey cursor e))
      | .ok key =>
        match record words t.length cursor with
        | .error e => .error e
        | .ok (location, held, next) =>
          match t.create key location held with
          | .error e => .error (.refused (.table e))
          | .ok (_, t) => if cursor < next then records words t next else .error .stalled
termination_by words.length - cursor
decreasing_by
  have inside := (List.getElem?_eq_some_iff.mp ‹words[cursor]? = some _›).1
  omega

def table (words : List Word) : Except (Stop TableWireError) Table :=
  match records words .empty 0 with
  | .error e => .error e
  | .ok (t, cursor) =>
    if cursor = words.length then .ok t else .error (.refused (.trailing cursor))

def product? (a b : Nat) : Option Nat := if a * b < 2 ^ 64 then some (a * b) else none

def bytes? (payload : Bytes) (start stop : Nat) : Option Bytes :=
  if start ≤ stop ∧ stop ≤ payload.length then some ((payload.take stop).drop start) else none

def bounds? (index : Nat) : Option (Nat × Nat) :=
  (product? index 32).bind fun start => (sum? start 32).map fun stop => (start, stop)

-- Bytes that are not as many as a word has cannot be copied into one.
def argument (payload : Bytes) (index : Nat) : Except (Stop ResultCode) Word :=
  match (bounds? index).bind fun (start, stop) => bytes? payload start stop with
  | none => .error (.refused .badPayload)
  | some bytes =>
    match Word.ofBytes? bytes with
    | none => .error .outside
    | some w => .ok w

end Fetch

end RefMonitor
