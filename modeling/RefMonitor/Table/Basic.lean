import RefMonitor.Capability.Held
import Std.Data.ExtTreeMap

set_option autoImplicit false

namespace RefMonitor

-- One registered procedure. The index is its position in the listing, counted from one.
structure Procedure where
  key : Key
  index : Nat
  location : Location
  capabilities : Held
  deriving DecidableEq, Inhabited

inductive TableError where
  | duplicateKey (key : Key)
  | notFound (key : Key)
  | nullKey
  | invalidCapability (fault : CapabilityError)
  deriving DecidableEq

def TableError.message : TableError → String
  | .duplicateKey key => "procedure " ++ quoted key.name ++ " already registered"
  | .notFound key => "procedure " ++ quoted key.name ++ " not found"
  | .nullKey => "null key cannot name a procedure"
  | .invalidCapability fault => "invalid capability: " ++ fault.message

structure Table where
  records : List Procedure
  positions : Std.ExtTreeMap Key Nat
  deriving DecidableEq

def swapRemove {α : Type} (xs : List α) (position : Nat) : List α :=
  match xs.getLast? with
  | none => []
  | some last => (xs.set position last).dropLast

theorem length_swapRemove {α : Type} (xs : List α) (position : Nat) :
    (swapRemove xs position).length = xs.length - 1 := by
  cases h : xs.getLast? with
  | none => simp_all [swapRemove]
  | some last => simp [swapRemove, h]

namespace Table

def empty : Table := ⟨[], ∅⟩

instance : Inhabited Table := ⟨empty⟩

def length (t : Table) : Nat := t.records.length

def isEmpty (t : Table) : Bool := t.records.isEmpty

def keys (t : Table) : List Key := t.records.map Procedure.key

def contains (t : Table) (key : Key) : Bool := t.positions.contains key

def lookup (t : Table) (key : Key) : Option Procedure :=
  t.positions[key]?.bind (t.records[·]?)

def create (t : Table) (key : Key) (location : Location) (capabilities : Held) :
    Except TableError (Nat × Table) :=
  if key.isNull then .error .nullKey
  else if t.contains key then .error (.duplicateKey key)
  else match capabilities.caps.findSome? Capability.fault? with
    | some fault => .error (.invalidCapability fault)
    | none =>
      let index := t.records.length + 1
      .ok (index, ⟨t.records ++ [⟨key, index, location, capabilities⟩],
        t.positions.insert key t.records.length⟩)

def delete (t : Table) (key : Key) : Except TableError (Procedure × Table) :=
  match t.positions[key]? with
  | none => .error (.notFound key)
  | some position =>
    match t.records[position]? with
    | none => .error (.notFound key)
    | some removed =>
      let records := swapRemove t.records position
      let positions := t.positions.erase key
      match records[position]? with
      | none => .ok (removed, ⟨records, positions⟩)
      | some moved =>
        .ok (removed, ⟨records.set position { moved with index := position + 1 },
          positions.insert moved.key position⟩)

def addCapability (t : Table) (key : Key) (c : Capability) : Except TableError Table :=
  match c.fault? with
  | some fault => .error (.invalidCapability fault)
  | none =>
    match t.positions[key]? with
    | none => .error (.notFound key)
    | some position =>
      .ok { t with records := t.records.modify position fun r =>
              { r with capabilities := r.capabilities.push c } }

inductive Edit where
  | create (key : Key) (location : Location) (capabilities : List Capability)
  | delete (key : Key)
  | grant (key : Key) (capability : Capability)

def edit (t : Table) : Edit → Table
  | .create key location capabilities =>
    match t.create key location (.ofList capabilities) with
    | .error _ => t
    | .ok (_, next) => next
  | .delete key =>
    match t.delete key with
    | .error _ => t
    | .ok (_, next) => next
  | .grant key c =>
    match t.addCapability key c with
    | .error _ => t
    | .ok next => next

def history (edits : List Edit) : Table := edits.foldl edit empty

end Table

end RefMonitor
