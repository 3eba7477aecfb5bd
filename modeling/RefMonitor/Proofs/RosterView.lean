import RefMonitor.Proofs.TableHistory
import RefMonitor.Table.Roster

set_option autoImplicit false

namespace RefMonitor

namespace Directory

variable {σ τ : Type}

def transport {α : Type} (view : σ → τ) (result : Except TableError (α × σ)) :
    Except TableError (α × τ) :=
  result.map (Prod.map id view)

@[simp] theorem transport_error {α : Type} (view : σ → τ) (e : TableError) :
    transport (α := α) view (.error e) = .error e := rfl

@[simp] theorem transport_ok {α : Type} (view : σ → τ) (a : α) (s : σ) :
    transport view (.ok (a, s)) = .ok (a, view s) := rfl

/-- A view of the good states of one directory as states of another, in which every operation is
answered alike and leads to what is seen of the state after it. -/
structure Refines (d : Directory σ) (reference : Directory τ) (good : σ → Prop) (view : σ → τ) :
    Prop where
  create : ∀ {s : σ}, good s → ∀ key location capabilities,
    reference.create (view s) key location capabilities =
      transport view (d.create s key location capabilities)
  delete : ∀ {s : σ}, good s → ∀ key,
    reference.delete (view s) key = transport view (d.delete s key)
  grant : ∀ {s : σ}, good s → ∀ key c,
    reference.grant (view s) key c = transport view (d.grant s key c)
  lookup : ∀ {s : σ}, good s → ∀ key, reference.lookup (view s) key = d.lookup s key
  contains : ∀ {s : σ}, good s → ∀ key, reference.contains (view s) key = d.contains s key
  keys : ∀ {s : σ}, good s → reference.keys (view s) = d.keys s
  keeps : ∀ {s : σ}, good s → ∀ access, good (d.serve s access).2

theorem settle_transport {α : Type} (s : σ) (view : σ → τ) (reply : Except TableError α → Reply)
    (result : Except TableError (α × σ)) :
    settle (view s) reply (transport view result) =
      ((settle s reply result).1, view (settle s reply result).2) := by
  cases result <;> rfl

theorem settle_of_error {α : Type} {s : σ} {reply : Except TableError α → Reply}
    (accepts : ∀ a, (reply (.ok a)).error? = none) {result : Except TableError (α × σ)}
    {e : TableError} (failed : (settle s reply result).1.error? = some e) :
    (settle s reply result).2 = s := by
  cases result with
  | error => rfl
  | ok pair =>
    rw [settle, accepts] at failed
    cases failed

theorem serve_of_error (d : Directory σ) {s : σ} {access : Access} {e : TableError}
    (failed : (d.serve s access).1.error? = some e) : (d.serve s access).2 = s := by
  cases access with
  | lookup | contains | keys => rfl
  | edit edit => cases edit <;> exact settle_of_error (fun _ => rfl) failed

namespace Refines

variable {d : Directory σ} {reference : Directory τ} {good : σ → Prop} {view : σ → τ}
  (refines : d.Refines reference good view)
include refines

theorem serve {s : σ} (start : good s) (access : Access) :
    reference.serve (view s) access = ((d.serve s access).1, view (d.serve s access).2) := by
  cases access with
  | edit e =>
    cases e with
    | create key location capabilities =>
      simp only [Directory.serve, refines.create start, settle_transport]
    | delete key => simp only [Directory.serve, refines.delete start, settle_transport]
    | grant key c => simp only [Directory.serve, refines.grant start, settle_transport]
  | lookup key => simp only [Directory.serve, refines.lookup start]
  | contains key => simp only [Directory.serve, refines.contains start]
  | keys => simp only [Directory.serve, refines.keys start]

theorem run {s : σ} (start : good s) (accesses : List Access) :
    reference.run (view s) accesses = ((d.run s accesses).1, view (d.run s accesses).2) ∧
      good (d.run s accesses).2 := by
  induction accesses generalizing s with
  | nil => exact ⟨rfl, start⟩
  | cons access rest ih =>
    obtain ⟨same, finish⟩ := ih (refines.keeps start access)
    simp only [Directory.run, refines.serve start, same]
    exact ⟨trivial, finish⟩

end Refines

end Directory

namespace Roster

variable {roster : Roster} {key : Key} {position : Nat}

theorem getElem?_keys (roster : Roster) (i : Nat) :
    roster.keys[i]? = roster[i]?.map Registration.key := by
  simp [keys]

theorem position_unique (distinct : roster.keys.Nodup) {i j : Nat}
    (first : roster.keys[i]? = some key) (second : roster.keys[j]? = some key) : i = j := by
  obtain ⟨inside, -⟩ := List.getElem?_eq_some_iff.mp first
  exact (List.getElem?_inj inside distinct).mp (first.trans second.symm)

theorem lookup_eq_some_iff (distinct : roster.keys.Nodup) (key : Key) (p : Procedure) :
    roster.lookup key = some p ↔
      ∃ (position : Nat) (r : Registration),
        roster[position]? = some r ∧ r.key = key ∧ r.record position = p := by
  simp only [lookup, Option.map_eq_some_iff, Prod.exists]
  constructor
  · rintro ⟨r, position, found, rfl⟩
    have named : r.key = key := by simpa using List.find?_some found
    have member := List.mem_of_find?_eq_some found
    rw [List.mem_zipIdx_iff_getElem?] at member
    exact ⟨position, r, member, named, rfl⟩
  · rintro ⟨position, r, there, rfl, rfl⟩
    refine ⟨r, position, ?_, rfl⟩
    have member : (r, position) ∈ roster.zipIdx := List.mem_zipIdx_iff_getElem?.mpr there
    -- Whatever is found first has the same name, and names are distinct.
    obtain ⟨⟨q, i⟩, found⟩ :
        ∃ pair, roster.zipIdx.find? (fun pair => pair.1.key = r.key) = some pair := by
      rw [← Option.isSome_iff_exists, List.find?_isSome]
      exact ⟨_, member, by simp⟩
    have named : q.key = r.key := by simpa using List.find?_some found
    have place := List.mem_of_find?_eq_some found
    rw [List.mem_zipIdx_iff_getElem?] at place
    have first : roster.keys[i]? = some r.key := by
      rw [getElem?_keys, place, Option.map_some, named]
    have second : roster.keys[position]? = some r.key := by
      rw [getElem?_keys, there, Option.map_some]
    obtain rfl : i = position := position_unique distinct first second
    rw [place] at there
    cases there
    exact found

theorem getElem?_fill (r : Registration) (rest : Roster) (i : Nat) :
    (rest.getLast?.toList ++ rest.dropLast)[i]? =
      if i < rest.length then
        if i = 0 then (r :: rest).getLast? else (r :: rest)[i]?
      else none := by
  cases ending : rest.getLast? with
  | none => simp [List.getLast?_eq_none_iff.mp ending]
  | some last =>
    have occupied : 0 < rest.length := by
      rw [List.length_pos_iff]
      rintro rfl
      cases ending
    cases i with
    | zero => simp [occupied, List.getLast?_cons, ending]
    | succ i =>
      simp only [Option.toList_some, List.singleton_append, List.getElem?_cons_succ,
        List.getElem?_dropLast, Nat.add_one_ne_zero, if_false]
      split <;> split <;> first | rfl | omega

theorem getElem?_strike (distinct : roster.keys.Nodup) (spot : roster.keys[position]? = some key)
    (i : Nat) :
    (strike key roster)[i]? =
      if i + 1 < roster.length then if i = position then roster.getLast? else roster[i]?
      else none := by
  induction roster generalizing position i with
  | nil => simp [keys] at spot
  | cons r rest ih =>
    obtain ⟨fresh, distinct_rest⟩ := List.nodup_cons.mp distinct
    by_cases named : r.key = key
    · have first : position = 0 := position_unique distinct spot (by simp [keys, named])
      subst first
      simpa [strike, named] using getElem?_fill r rest i
    · cases position with
      | zero => simp [keys, named] at spot
      | succ position =>
        have later : (Roster.keys rest)[position]? = some key := by simpa [keys] using spot
        have occupied : 0 < rest.length := by
          have inside := (List.getElem?_eq_some_iff.mp later).1
          simp only [keys, List.length_map] at inside
          omega
        have ending : (r :: rest).getLast? = rest.getLast? := by
          cases rest with
          | nil => cases occupied
          | cons => simp [List.getLast?_cons_cons]
        cases i with
        | zero => simp [strike, named, occupied]
        | succ i => simp [strike, named, ih distinct_rest later, ending]

end Roster

namespace Table

def roster (t : Table) : Roster :=
  t.records.map fun p => ⟨p.key, p.location, p.capabilities.caps⟩

variable {t : Table}

theorem delete_cases (t : Table) (key : Key) :
    (t.lookup key = none ∧ t.delete key = .error (.notFound key)) ∨
    ∃ removed next, t.lookup key = some removed ∧ t.delete key = .ok (removed, next) := by
  simp only [lookup, delete]
  cases t.positions[key]? with
  | none => exact .inl ⟨rfl, rfl⟩
  | some position =>
    cases there : t.records[position]? with
    | none => exact .inl ⟨there, by simp [there]⟩
    | some removed =>
      refine .inr ⟨removed, ?_⟩
      simp only [Option.bind_some, there, true_and]
      split <;> exact ⟨_, rfl⟩

theorem getElem?_roster (t : Table) (i : Nat) :
    t.roster[i]? = t.records[i]?.map fun p => ⟨p.key, p.location, p.capabilities.caps⟩ := by
  simp [roster]

@[simp] theorem keys_roster (t : Table) : t.roster.keys = t.keys := by
  simp [roster, Roster.keys, keys, Function.comp_def]

@[simp] theorem serve_edit (t : Table) (e : Edit) :
    (directory.serve t (.edit e)).2 = t.edit e := by
  cases e with
  | create key location capabilities =>
    simp only [Directory.serve, directory, edit]
    cases t.create key location (.ofList capabilities) <;> rfl
  | delete key =>
    simp only [Directory.serve, directory, edit]
    cases t.delete key <;> rfl
  | grant key c =>
    simp only [Directory.serve, directory, edit]
    cases t.addCapability key c <;> rfl

theorem changes_serve (t : Table) (access : Access) :
    t.Changes (directory.serve t access).2 := by
  cases access with
  | edit e =>
    rw [serve_edit]
    exact changes_edit t e
  | lookup | contains | keys => exact .kept

namespace Intact

variable (intact : t.Intact)
include intact

theorem nodup_roster : t.roster.keys.Nodup := by
  rw [keys_roster]
  exact intact.sound.nodup_keys

theorem record_roster {position : Nat} {p : Procedure} (there : t.records[position]? = some p) :
    Registration.record ⟨p.key, p.location, p.capabilities.caps⟩ position = p := by
  have index := intact.sound.index position p there
  have held := (Held.eq_ofList_iff p.capabilities).mpr
    (intact.summarized p (List.mem_of_getElem? there))
  simp only [Registration.record, ← held, ← index]

theorem records_eq : t.records = t.roster.mapIdx fun position r => r.record position := by
  apply List.ext_getElem?
  intro i
  rw [List.getElem?_mapIdx, getElem?_roster]
  cases there : t.records[i]? with
  | none => rfl
  | some p => simp only [Option.map_some, intact.record_roster there]

theorem lookup_roster (key : Key) : t.roster.lookup key = t.lookup key := by
  apply Option.ext
  intro p
  rw [Roster.lookup_eq_some_iff intact.nodup_roster, intact.sound.lookup_iff, List.mem_iff_getElem?]
  constructor
  · rintro ⟨position, r, listed, rfl, rfl⟩
    rw [getElem?_roster, Option.map_eq_some_iff] at listed
    obtain ⟨q, there, rfl⟩ := listed
    rw [intact.record_roster there]
    exact ⟨⟨position, there⟩, rfl⟩
  · rintro ⟨⟨position, there⟩, rfl⟩
    refine ⟨position, _, ?_, rfl, intact.record_roster there⟩
    rw [getElem?_roster, there]
    rfl

theorem create_roster (key : Key) (location : Location) (capabilities : List Capability) :
    t.roster.create key location capabilities =
      Directory.transport roster (t.create key location (.ofList capabilities)) := by
  have present : key ∈ t.keys ↔ t.contains key = true := (intact.sound.contains_iff key).symm
  simp only [Roster.create, create, keys_roster, present, ← Key.isNull_iff, Held.caps_ofList]
  split
  next => rfl
  next =>
    split
    next => rfl
    next =>
      cases capabilities.findSome? Capability.fault? with
      | some fault => rfl
      | none => simp [roster]

theorem delete_roster (key : Key) :
    t.roster.delete key = Directory.transport roster (t.delete key) := by
  rw [Roster.delete, intact.lookup_roster]
  rcases t.delete_cases key with ⟨absent, refused⟩ | ⟨removed, next, found, deleted⟩
  · rw [absent, refused]
    rfl
  · rw [found, deleted]
    obtain ⟨position, last, d⟩ := deletion_of_delete intact.sound deleted
    suffices struck : Roster.strike key t.roster = next.roster by
      simp [struck]
    have spot : t.roster.keys[position]? = some key := by
      rw [keys_roster]
      exact d.spot
    have length : t.roster.length = t.records.length := by simp [roster]
    have ending : t.roster.getLast? = some ⟨last.key, last.location, last.capabilities.caps⟩ := by
      rw [List.getLast?_eq_getElem?, length, getElem?_roster, d.tail]
      rfl
    apply List.ext_getElem?
    intro i
    rw [Roster.getElem?_strike intact.nodup_roster spot, length, ending, getElem?_roster,
      getElem?_roster, d.records]
    split
    next => split <;> rfl
    next => rfl

theorem grant_roster (key : Key) (c : Capability) :
    t.roster.grant key c = Directory.transport roster (directory.grant t key c) := by
  have present : key ∈ t.keys ↔ t.contains key = true := (intact.sound.contains_iff key).symm
  simp only [Roster.grant, directory, addCapability, keys_roster, present, contains_eq]
  cases c.fault? with
  | some fault => rfl
  | none =>
    cases placed : t.positions[key]? with
    | none => rfl
    | some position =>
      simp only [Option.isSome_some, if_true, Except.map, Directory.transport_ok]
      congr 2
      apply List.ext_getElem?
      intro i
      rw [getElem?_roster, List.getElem?_map, getElem?_roster, List.getElem?_modify]
      cases there : t.records[i]? with
      | none => rfl
      | some p =>
        have spot := (intact.sound.positions key position).mp placed
        have own : t.keys[i]? = some p.key := by
          rw [getElem?_keys, there]
          rfl
        have named : p.key = key ↔ position = i := intact.sound.name_eq_iff spot own
        by_cases here : position = i <;> simp [named, here]

theorem serve (access : Access) : (directory.serve t access).2.Intact :=
  (changes_serve t access).intact intact

end Intact

theorem refines_roster : directory.Refines Roster.directory Intact roster where
  create intact := intact.create_roster
  delete intact := intact.delete_roster
  grant intact := intact.grant_roster
  lookup intact := intact.lookup_roster
  contains intact key := by
    rw [Bool.eq_iff_iff]
    simp [Roster.directory, directory, intact.sound.contains_iff]
  keys _ := keys_roster _
  keeps intact := intact.serve

theorem registration?_addCapability {next : Table} {key : Key} {c : Capability} (sound : t.Sound)
    (h : t.addCapability key c = .ok next) (other : Key) :
    next.registration? other =
      (t.registration? other).map fun (location, held) =>
        (location, if other = key then held.push c else held) := by
  obtain ⟨-, position, placed, rfl⟩ := (addCapability_eq_ok_iff ..).mp h
  simp only [registration?, lookup]
  cases found : t.positions[other]? with
  | none => rfl
  | some i =>
    have own := (sound.positions other i).mp found
    have spot := (sound.positions key position).mp placed
    have named : other = key ↔ position = i := sound.name_eq_iff spot own
    simp only [Option.bind_some, List.getElem?_modify]
    cases t.records[i]? with
    | none => rfl
    | some p => by_cases here : position = i <;> simp [named, here]

theorem registration?_edit (sound : t.Sound) (e : Edit) {other : Key}
    (spared : (Access.edit e).edited? ≠ some other) :
    (t.edit e).registration? other = t.registration? other := by
  fun_cases edit t e with
  | case1 | case3 | case5 => rfl
  | case2 key location capabilities index next created =>
    rw [registration?_create sound created, if_neg]
    rintro rfl
    exact spared rfl
  | case4 key removed next deleted =>
    rw [registration?_delete sound deleted, if_neg]
    rintro rfl
    exact spared rfl
  | case6 key c next granted =>
    have apart : other ≠ key := by
      rintro rfl
      exact spared rfl
    rw [registration?_addCapability sound granted]
    simp [apart]

structure Mirrors (t : Table) (roster : Roster) : Prop where
  distinct : roster.keys.Nodup
  records : t.records = roster.mapIdx fun position r => r.record position
  positions : ∀ (key : Key) (position : Nat),
    t.positions[key]? = some position ↔ roster.keys[position]? = some key

theorem Intact.mirrors (intact : t.Intact) : t.Mirrors t.roster where
  distinct := intact.nodup_roster
  records := intact.records_eq
  positions key position := by
    rw [keys_roster]
    exact intact.sound.positions key position

theorem replies_as_roster (accesses : List Access) :
    let here := directory.run .empty accesses
    let reference := Roster.directory.run [] accesses
    here.1 = reference.1 ∧ here.2.Mirrors reference.2 ∧
    ∀ access, (∀ other, access.edited? ≠ some other →
        (directory.serve here.2 access).2.registration? other = here.2.registration? other) ∧
      ∀ e, (directory.serve here.2 access).1.error? = some e →
        (directory.serve here.2 access).2 = here.2 := by
  have start : Table.empty.Intact := ⟨.empty, .empty⟩
  obtain ⟨same, intact⟩ := refines_roster.run start accesses
  have nobody : Table.empty.roster = [] := rfl
  rw [nobody] at same
  dsimp only
  rw [same]
  refine ⟨rfl, intact.mirrors, ?_⟩
  intro access
  refine ⟨?_, fun e => directory.serve_of_error⟩
  intro other spared
  cases access with
  | edit e =>
    rw [serve_edit]
    exact registration?_edit intact.sound e spared
  | lookup | contains | keys => rfl

example :
    let a : Key := ⟨[97], by simp, by simp⟩
    let b : Key := ⟨[98], by simp, by simp⟩
    let c : Key := ⟨[99], by simp, by simp⟩
    let edits : List Edit := [.create a default [], .create b default [], .create c default [],
      .delete a, .create a default []]
    (directory.run .empty (edits.map .edit)).2.keys = [c, b, a] := by
  rfl

end Table

end RefMonitor
