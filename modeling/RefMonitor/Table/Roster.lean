import RefMonitor.Table.Basic

set_option autoImplicit false

namespace RefMonitor

inductive Access where
  | edit (e : Table.Edit)
  | lookup (key : Key)
  | contains (key : Key)
  | keys

def Access.edited? : Access → Option Key
  | .edit (.create key _ _) | .edit (.delete key) | .edit (.grant key _) => some key
  | .lookup _ | .contains _ | .keys => none

inductive Reply where
  | created (result : Except TableError Nat)
  | deleted (result : Except TableError Procedure)
  | granted (result : Except TableError Unit)
  | found (record : Option Procedure)
  | present (answer : Bool)
  | listing (keys : List Key)

def Reply.error? : Reply → Option TableError
  | .created (.error e) | .deleted (.error e) | .granted (.error e) => some e
  | .created (.ok _) | .deleted (.ok _) | .granted (.ok _) | .found _ | .present _ | .listing _ =>
    none

structure Directory (σ : Type) where
  create : σ → Key → Location → List Capability → Except TableError (Nat × σ)
  delete : σ → Key → Except TableError (Procedure × σ)
  grant : σ → Key → Capability → Except TableError (Unit × σ)
  lookup : σ → Key → Option Procedure
  contains : σ → Key → Bool
  keys : σ → List Key

namespace Directory

variable {σ : Type}

def settle {α : Type} (s : σ) (reply : Except TableError α → Reply) :
    Except TableError (α × σ) → Reply × σ
  | .error e => (reply (.error e), s)
  | .ok (a, next) => (reply (.ok a), next)

def serve (d : Directory σ) (s : σ) : Access → Reply × σ
  | .edit (.create key location capabilities) =>
    settle s .created (d.create s key location capabilities)
  | .edit (.delete key) => settle s .deleted (d.delete s key)
  | .edit (.grant key c) => settle s .granted (d.grant s key c)
  | .lookup key => (.found (d.lookup s key), s)
  | .contains key => (.present (d.contains s key), s)
  | .keys => (.listing (d.keys s), s)

def run (d : Directory σ) : σ → List Access → List Reply × σ
  | s, [] => ([], s)
  | s, access :: rest =>
    let (reply, next) := d.serve s access
    let (replies, last) := d.run next rest
    (reply :: replies, last)

end Directory

def Table.directory : Directory Table where
  create t key location capabilities := t.create key location (.ofList capabilities)
  delete := Table.delete
  grant t key c := (t.addCapability key c).map fun next => ((), next)
  lookup := Table.lookup
  contains := Table.contains
  keys := Table.keys

structure Registration where
  key : Key
  location : Location
  capabilities : List Capability
  deriving DecidableEq

def Registration.record (r : Registration) (position : Nat) : Procedure :=
  ⟨r.key, position + 1, r.location, .ofList r.capabilities⟩

/-- The directory that a reader of its listing would keep: the registrations alone, each found by
its name and numbered by its position. -/
abbrev Roster := List Registration

namespace Roster

def keys (roster : Roster) : List Key := roster.map Registration.key

def lookup (roster : Roster) (key : Key) : Option Procedure :=
  (roster.zipIdx.find? fun (r, _) => r.key = key).map fun (r, position) => r.record position

def create (roster : Roster) (key : Key) (location : Location) (capabilities : List Capability) :
    Except TableError (Nat × Roster) :=
  if key = .null then .error .nullKey
  else if key ∈ roster.keys then .error (.duplicateKey key)
  else match capabilities.findSome? Capability.fault? with
    | some fault => .error (.invalidCapability fault)
    | none => .ok (roster.length + 1, roster ++ [⟨key, location, capabilities⟩])

def strike (key : Key) : Roster → Roster
  | [] => []
  | r :: rest =>
    if r.key = key then rest.getLast?.toList ++ rest.dropLast else r :: strike key rest

def delete (roster : Roster) (key : Key) : Except TableError (Procedure × Roster) :=
  match roster.lookup key with
  | none => .error (.notFound key)
  | some record => .ok (record, strike key roster)

def grant (roster : Roster) (key : Key) (c : Capability) : Except TableError (Unit × Roster) :=
  match c.fault? with
  | some fault => .error (.invalidCapability fault)
  | none =>
    if key ∈ roster.keys then
      .ok ((), roster.map fun r =>
        if r.key = key then { r with capabilities := r.capabilities ++ [c] } else r)
    else .error (.notFound key)

def directory : Directory Roster where
  create := create
  delete := delete
  grant := grant
  lookup := lookup
  contains roster key := key ∈ roster.keys
  keys := keys

end Roster

end RefMonitor
