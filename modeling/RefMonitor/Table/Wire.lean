import RefMonitor.Capability.Wire
import RefMonitor.Table.Basic

set_option autoImplicit false

namespace RefMonitor

inductive TableWireError where
  | truncated (offset : Nat)
  | badKey (offset : Nat) (error : KeyError)
  | indexMismatch (offset : Nat)
  | capability (error : WireError)
  | table (error : TableError)
  | trailing (offset : Nat)
  deriving DecidableEq

def TableWireError.message : TableWireError → String
  | .truncated offset => s!"table truncated at word {offset}"
  | .badKey offset error => s!"bad key at word {offset}: " ++ error.message
  | .indexMismatch offset => s!"index mismatch at word {offset}"
  | .capability error => error.message
  | .table error => error.message
  | .trailing offset => s!"unexpected words after sentinel at word {offset}"

def Procedure.encode (p : Procedure) : List Word :=
  p.key.toWord :: .ofNat p.index :: p.location.word :: .ofNat p.capabilities.caps.length ::
    Capability.encodeAll p.capabilities.caps

namespace Table

def encode (t : Table) : List Word := t.records.flatMap Procedure.encode ++ [.zero]

def readRecord (index : Nat) (c : Cursor) :
    Except TableWireError (Key × Location × Held × Cursor) :=
  match c.rest with
  | [] => .error (.truncated c.offset)
  | first :: header =>
    match Key.ofWord first with
    | .error e => .error (.badKey c.offset e)
    | .ok key =>
      match header with
      | indexWord :: location :: count :: _ =>
        if indexWord.toUInt64?.map UInt64.toNat ≠ some index then
          .error (.indexMismatch (c.offset + 1))
        else match count.toUInt64? with
          | none => .error (.truncated (c.offset + 3))
          | some count =>
            match Capability.readBlocks count.toNat (c.skip 4) with
            | .error e => .error (.capability e)
            | .ok (caps, next) => .ok (key, ⟨location⟩, .ofList caps, next)
      | _ => .error (.truncated c.offset)

theorem length_rest_of_readBlocks {count : Nat} {c next : Cursor} {caps : List Capability}
    (h : Capability.readBlocks count c = .ok (caps, next)) :
    next.rest.length ≤ c.rest.length := by
  induction count generalizing c caps with
  | zero => cases h; exact Nat.le_refl _
  | succ count ih =>
    unfold Capability.readBlocks at h
    split at h
    · cases h
    · rename_i cap middle block
      cases hr : Capability.readBlocks count middle with
      | error e => rw [hr] at h; cases h
      | ok r =>
        rw [hr] at h
        cases h
        exact Nat.le_trans (ih hr) (Nat.le_of_lt (Capability.length_rest_of_readBlock block))

theorem length_rest_of_readRecord {index : Nat} {c next : Cursor} {key : Key}
    {location : Location} {held : Held}
    (h : readRecord index c = .ok (key, location, held, next)) :
    next.rest.length < c.rest.length := by
  revert h
  fun_cases readRecord index c with
  | case1 | case2 | case3 | case4 | case5 | case7 => rintro ⟨⟩
  | case6 first key named indexWord place count later indexed n counted caps last blocks rest =>
    intro h
    cases h
    have read := length_rest_of_readBlocks blocks
    simp only [Cursor.skip, List.length_drop] at read
    simp only [rest, List.length_cons] at read ⊢
    omega

def readRecords (t : Table) (c : Cursor) : Except TableWireError (Table × Cursor) :=
  match c.rest with
  | [] => .error (.truncated c.offset)
  | first :: _ =>
    if first.isZero then .ok (t, c.skip 1)
    else match _ : readRecord (t.length + 1) c with
      | .error e => .error e
      | .ok (key, location, held, next) =>
        match t.create key location held with
        | .error e => .error (.table e)
        | .ok (_, t) => readRecords t next
termination_by c.rest.length
decreasing_by exact length_rest_of_readRecord (by assumption)

def decode (words : List Word) : Except TableWireError Table :=
  match readRecords .empty (.ofWords words 0) with
  | .error e => .error e
  | .ok (t, c) => if c.rest = [] then .ok t else .error (.trailing c.offset)

end Table

end RefMonitor
