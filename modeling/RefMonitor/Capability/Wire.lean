import RefMonitor.Capability.Basic
import RefMonitor.Cursor

set_option autoImplicit false

namespace RefMonitor

inductive WireError where
  | truncated (offset : Nat)
  | zeroLength (offset : Nat)
  | unknownType (offset : Nat)
  | badArity (offset : Nat) (op : Operation) (values : Nat)
  | badKey (offset : Nat) (error : KeyError)
  deriving DecidableEq

def WireError.message : WireError → String
  | .truncated offset => s!"capability block truncated at word {offset}"
  | .zeroLength offset => s!"zero-length capability block at word {offset}"
  | .unknownType offset => s!"unknown capability type at word {offset}"
  | .badArity offset op values => s!"{op} capability at word {offset} cannot take {values} values"
  | .badKey offset error => s!"bad procedure key at word {offset}: " ++ error.message

namespace Capability

def values : Capability → List Word
  | .write address size => [address, size]
  | .log topics => topics
  | .call scope | .delete scope | .register scope => scope.map Key.toWord
  | .setEntry => []

def encodedLength (c : Capability) : Nat := 2 + c.values.length

def encode (c : Capability) : List Word :=
  .ofNat (c.values.length + 1) :: .ofNat c.operation.wireId :: c.values

theorem length_encode (c : Capability) : c.encode.length = c.encodedLength := by
  simp [encode, encodedLength]; omega

def encodeAll (caps : List Capability) : List Word := caps.flatMap encode

@[simp] theorem encodeAll_nil : encodeAll [] = [] := rfl

@[simp] theorem encodeAll_cons (c : Capability) (caps : List Capability) :
    encodeAll (c :: caps) = c.encode ++ encodeAll caps := rfl

def readKeys (offset : Nat) : List Word → Except WireError (List Key)
  | [] => .ok []
  | w :: ws =>
    match Key.ofWord w with
    | .error e => .error (.badKey offset e)
    | .ok k =>
      if k.isNull then .error (.badKey offset .empty)
      else (readKeys (offset + 1) ws).map (k :: ·)

def ofValues (offset : Nat) (op : Operation) (values : List Word) : Except WireError Capability :=
  match op, values with
  | .write, [address, size] => .ok (.write address size)
  | .log, topics =>
    if topics.length ≤ maxTopics then .ok (.log topics)
    else .error (.badArity offset .log topics.length)
  | .setEntry, [] => .ok .setEntry
  | .call, scope => (readKeys (offset + 2) scope).map .call
  | .delete, scope => (readKeys (offset + 2) scope).map .delete
  | .register, scope => (readKeys (offset + 2) scope).map .register
  | op, values => .error (.badArity offset op values.length)

-- A length that no sequence can have is an end of input like any other.
def readBlock (c : Cursor) : Except WireError (Capability × Cursor) :=
  match c.rest with
  | [] => .error (.truncated c.offset)
  | size :: body =>
    match size.toUInt64? with
    | none => .error (.truncated c.offset)
    | some n =>
      if body.length < n.toNat then .error (.truncated c.offset)
      else match body.take n.toNat with
        | [] => .error (.zeroLength c.offset)
        | type :: values =>
          match type.toUInt64?.bind fun id => Operation.ofWireId? id.toNat with
          | none => .error (.unknownType c.offset)
          | some op => (ofValues c.offset op values).map (·, c.skip (n.toNat + 1))

theorem length_rest_of_readBlock {c next : Cursor} {cap : Capability}
    (h : readBlock c = .ok (cap, next)) : next.rest.length < c.rest.length := by
  revert h
  fun_cases readBlock c with
  | case1 | case2 | case3 | case4 | case5 => rintro ⟨⟩
  | case6 size body rest n counted enough type values taken op known =>
    intro h
    cases value : ofValues c.offset op values with
    | error e =>
      rw [value] at h
      cases h
    | ok cap =>
      rw [value] at h
      cases h
      simp only [Cursor.skip, rest, List.length_drop, List.length_cons]
      omega

def readBlocks : (count : Nat) → Cursor → Except WireError (List Capability × Cursor)
  | 0, c => .ok ([], c)
  | count + 1, c =>
    match readBlock c with
    | .error e => .error e
    | .ok (cap, next) => (readBlocks count next).map fun r => (cap :: r.1, r.2)

def readAll (c : Cursor) : Except WireError (List Capability) :=
  if c.rest = [] then .ok []
  else match _ : readBlock c with
    | .error e => .error e
    | .ok (cap, next) => (readAll next).map (cap :: ·)
termination_by c.rest.length
decreasing_by exact length_rest_of_readBlock (by assumption)

def decodeAt (words : List Word) (offset : Nat) : Except WireError (Capability × Nat) :=
  (readBlock (.ofWords words offset)).map fun r => (r.1, r.2.offset)

def decodeBlocks (words : List Word) (offset count : Nat) :
    Except WireError (List Capability × Nat) :=
  (readBlocks count (.ofWords words offset)).map fun r => (r.1, r.2.offset)

def decode (words : List Word) : Except WireError (List Capability) := readAll (.ofWords words 0)

end Capability

end RefMonitor
