import RefMonitor.Kernel.Invariant

set_option autoImplicit false

namespace RefMonitor

theorem getElem?_swapRemove {α : Type} (xs : List α) (position i : Nat) (last : α)
    (ends : xs.getLast? = some last) (inside : position < xs.length) :
    (swapRemove xs position)[i]? =
      if i + 1 < xs.length then if i = position then some last else xs[i]? else none := by
  simp only [swapRemove, ends, List.getElem?_dropLast, List.length_set, List.getElem?_set]
  by_cases here : position = i
  · subst here
    simp only [inside, if_true]
    split <;> split <;> first | rfl | omega
  · have there : i ≠ position := fun h => here h.symm
    simp only [here, there, if_false]
    split <;> split <;> first | rfl | omega

namespace Table

theorem getElem?_keys (t : Table) (i : Nat) : t.keys[i]? = t.records[i]?.map Procedure.key := by
  simp [keys]

theorem position_lt {t : Table} {key : Key} {i : Nat} (listed : t.keys[i]? = some key) :
    i < t.records.length := by
  simpa [keys] using (List.getElem?_eq_some_iff.mp listed).1

theorem contains_eq (t : Table) (key : Key) : t.contains key = t.positions[key]?.isSome :=
  Std.ExtTreeMap.contains_eq_isSome_getElem?

namespace Sound

theorem empty : Table.empty.Sound where
  nodup_keys := List.nodup_nil
  null_not_mem := List.not_mem_nil
  positions key position := by simp [Table.empty, keys]
  index position r found := by simp [Table.empty] at found
  valid r member := by cases member

variable {t : Table}

theorem named (sound : t.Sound) {p : Procedure} (member : p ∈ t.records) : p.key ≠ .null := by
  intro null
  exact sound.null_not_mem (null ▸ List.mem_map_of_mem member)

theorem lookup_iff (sound : t.Sound) (key : Key) (p : Procedure) :
    t.lookup key = some p ↔ p ∈ t.records ∧ p.key = key := by
  simp only [lookup, Option.bind_eq_some_iff, sound.positions, getElem?_keys,
    Option.map_eq_some_iff]
  constructor
  · rintro ⟨i, ⟨q, found, named⟩, same⟩
    rw [found] at same
    cases same
    exact ⟨List.mem_of_getElem? found, named⟩
  · rintro ⟨member, named⟩
    obtain ⟨i, found⟩ := List.getElem?_of_mem member
    exact ⟨i, ⟨p, found, named⟩, found⟩

theorem contains_iff (sound : t.Sound) (key : Key) : t.contains key = true ↔ key ∈ t.keys := by
  rw [contains_eq, Option.isSome_iff_exists, List.mem_iff_getElem?]
  simp only [sound.positions]

theorem contains_iff_lookup (sound : t.Sound) (key : Key) :
    t.contains key = true ↔ ∃ p, t.lookup key = some p := by
  simp only [sound.contains_iff, sound.lookup_iff, keys, List.mem_map]

theorem position_unique (sound : t.Sound) {key : Key} {i j : Nat} (first : t.keys[i]? = some key)
    (second : t.keys[j]? = some key) : i = j := by
  rw [← sound.positions] at first second
  exact Option.some.inj (first.symm.trans second)

theorem name_eq_iff (sound : t.Sound) {key other : Key} {i j : Nat} (first : t.keys[i]? = some key)
    (second : t.keys[j]? = some other) : other = key ↔ i = j := by
  constructor
  · rintro rfl
    exact sound.position_unique first second
  · rintro rfl
    exact Option.some.inj (second.symm.trans first)

theorem positions_congr {u : Table} (sound : t.Sound) (other : u.Sound) (keys : t.keys = u.keys) :
    t.positions = u.positions := by
  apply Std.ExtTreeMap.ext_getElem?
  intro key
  apply Option.ext
  intro position
  rw [sound.positions, other.positions, keys]

end Sound

-- The map is a function, so keys that it places are distinct.
theorem nodup_of_positions {t : Table} (positions : ∀ (key : Key) (position : Nat),
    t.positions[key]? = some position ↔ t.keys[position]? = some key) : t.keys.Nodup := by
  rw [List.Nodup, List.pairwise_iff_getElem]
  intro i j hi hj less same
  have first := (positions t.keys[i] i).mpr (List.getElem?_eq_getElem hi)
  have second := (positions t.keys[j] j).mpr (List.getElem?_eq_getElem hj)
  rw [same, second] at first
  cases first
  omega

theorem create_eq_ok_iff (t next : Table) (key : Key) (location : Location) (held : Held)
    (index : Nat) :
    t.create key location held = .ok (index, next) ↔
      key ≠ .null ∧ t.contains key = false ∧ (∀ c ∈ held.caps, c.Valid) ∧
      index = t.records.length + 1 ∧
      next = ⟨t.records ++ [⟨key, t.records.length + 1, location, held⟩],
        t.positions.insert key t.records.length⟩ := by
  have valid : held.caps.findSome? Capability.fault? = none ↔ ∀ c ∈ held.caps, c.Valid :=
    List.findSome?_eq_none_iff
  rw [← valid, Ne, ← Key.isNull_iff]
  by_cases null : key.isNull = true
  · simp [create, null]
  by_cases present : t.contains key = true
  · simp [create, null, present]
  cases fault : held.caps.findSome? Capability.fault? with
  | some fault => simp [create, null, present, fault]
  | none =>
    simp only [create, null, present, fault]
    grind

theorem create_of_valid (t : Table) {key : Key} {held : Held} (named : key ≠ .null)
    (valid : ∀ cap ∈ held.caps, cap.Valid) (location : Location) :
    t.create key location held =
      if t.contains key then .error (.duplicateKey key)
      else .ok (t.length + 1, ⟨t.records ++ [⟨key, t.length + 1, location, held⟩],
        t.positions.insert key t.length⟩) := by
  have faultless : held.caps.findSome? Capability.fault? = none :=
    List.findSome?_eq_none_iff.mpr valid
  rw [Ne, ← Key.isNull_iff] at named
  simp [create, named, faultless, length]

theorem lookup_create {t next : Table} {key : Key} {location : Location} {held : Held}
    {index : Nat} (sound : t.Sound) (h : t.create key location held = .ok (index, next))
    (other : Key) :
    next.lookup other =
      if other = key then some ⟨key, index, location, held⟩ else t.lookup other := by
  obtain ⟨named, fresh, valid, rfl, rfl⟩ := (create_eq_ok_iff ..).mp h
  simp only [lookup, Std.ExtTreeMap.getElem?_insert, Std.compare_eq_iff_eq]
  by_cases same : key = other
  · simp [same]
  · rw [if_neg same, if_neg (fun h => same h.symm)]
    cases found : t.positions[other]? with
    | none => rfl
    | some i =>
      have inside := position_lt ((sound.positions other i).mp found)
      simp [List.getElem?_append_left inside]

structure Deletion (t : Table) (key : Key) (next : Table) (position : Nat) (last : Procedure) :
    Prop where
  spot : t.keys[position]? = some key
  tail : t.records[t.records.length - 1]? = some last
  records : ∀ i, next.records[i]? =
    if i + 1 < t.records.length then
      if i = position then some { last with index := position + 1 } else t.records[i]?
    else none
  positions : ∀ other, next.positions[other]? =
    if other = key then none
    else if other = last.key then some position else t.positions[other]?

section

variable {t : Table} {key : Key} {position : Nat} {last : Procedure}

theorem deletion_at_end (spot : t.keys[position]? = some key)
    (tail : t.records[t.records.length - 1]? = some last)
    (ends : position + 1 = t.records.length) :
    Deletion t key ⟨swapRemove t.records position, t.positions.erase key⟩ position last := by
  have inside : position < t.records.length := by omega
  have final : t.records.getLast? = some last := by
    rw [List.getLast?_eq_getElem?, tail]
  have same : last.key = key := by
    rw [getElem?_keys, show position = t.records.length - 1 by omega, tail] at spot
    exact Option.some.inj spot
  refine ⟨spot, tail, ?_, ?_⟩
  · intro i
    rw [getElem?_swapRemove _ _ _ _ final inside]
    split
    next before =>
      have elsewhere : i ≠ position := by omega
      rw [if_neg elsewhere, if_neg elsewhere]
    next => rfl
  · intro other
    simp only [Std.ExtTreeMap.getElem?_erase, Std.compare_eq_iff_eq, same]
    by_cases gone : other = key
    · simp [gone]
    · have kept : key ≠ other := fun h => gone h.symm
      simp [gone, kept]

theorem deletion_before_end (sound : t.Sound) (spot : t.keys[position]? = some key)
    (tail : t.records[t.records.length - 1]? = some last)
    (before : position + 1 < t.records.length) :
    Deletion t key
      ⟨(swapRemove t.records position).set position { last with index := position + 1 },
        (t.positions.erase key).insert last.key position⟩ position last := by
  have inside : position < t.records.length := by omega
  have final : t.records.getLast? = some last := by
    rw [List.getLast?_eq_getElem?, tail]
  have apart : last.key ≠ key := by
    intro same
    have listed : t.keys[t.records.length - 1]? = some key := by
      rw [getElem?_keys, tail, ← same]
      rfl
    have unique := sound.position_unique listed spot
    omega
  refine ⟨spot, tail, ?_, ?_⟩
  · intro i
    rw [List.getElem?_set, getElem?_swapRemove _ _ _ _ final inside, length_swapRemove]
    by_cases here : i = position
    · subst here
      have room : i < t.records.length - 1 := by omega
      simp [before, room]
    · have there : position ≠ i := fun h => here h.symm
      simp [here, there]
  · intro other
    simp only [Std.ExtTreeMap.getElem?_insert, Std.ExtTreeMap.getElem?_erase,
      Std.compare_eq_iff_eq]
    by_cases moved : last.key = other
    · subst moved
      simp [apart]
    · have unmoved : other ≠ last.key := fun h => moved h.symm
      by_cases gone : other = key
      · simp [gone, apart]
      · have kept : key ≠ other := fun h => gone h.symm
        simp [moved, unmoved, gone, kept]

end

theorem deletion_of_delete {t next : Table} {key : Key} {removed : Procedure} (sound : t.Sound)
    (h : t.delete key = .ok (removed, next)) :
    ∃ position last, Deletion t key next position last := by
  unfold delete at h
  split at h
  next => cases h
  next position placed =>
    have spot := (sound.positions key position).mp placed
    have inside := position_lt spot
    obtain ⟨last, tail⟩ : ∃ last, t.records[t.records.length - 1]? = some last :=
      ⟨_, List.getElem?_eq_getElem (by omega)⟩
    have final : t.records.getLast? = some last := by
      rw [List.getLast?_eq_getElem?, tail]
    have filled := getElem?_swapRemove t.records position position last final inside
    rw [if_pos rfl] at filled
    split at h
    next => cases h
    next found =>
      dsimp only at h
      refine ⟨position, last, ?_⟩
      by_cases before : position + 1 < t.records.length
      · rw [if_pos before] at filled
        rw [filled] at h
        cases h
        exact deletion_before_end sound spot tail before
      · rw [if_neg before] at filled
        rw [filled] at h
        cases h
        exact deletion_at_end spot tail (by omega)

namespace Sound

variable {t next : Table} {key : Key} {location : Location} {held : Held} {index : Nat}

theorem keys_create (h : t.create key location held = .ok (index, next)) :
    next.keys = t.keys ++ [key] := by
  obtain ⟨-, -, -, -, rfl⟩ := (create_eq_ok_iff ..).mp h
  simp [keys]

theorem places_create (sound : t.Sound) (h : t.create key location held = .ok (index, next))
    (k : Key) (i : Nat) : next.positions[k]? = some i ↔ next.keys[i]? = some k := by
  rw [keys_create h]
  obtain ⟨-, fresh, -, -, rfl⟩ := (create_eq_ok_iff ..).mp h
  have absent : key ∉ t.keys := by
    intro member
    rw [sound.contains_iff key |>.mpr member] at fresh
    cases fresh
  have length : t.keys.length = t.records.length := by simp [keys]
  have old := sound.positions k i
  simp only [Std.ExtTreeMap.getElem?_insert, Std.compare_eq_iff_eq, List.getElem?_append,
    length, List.getElem?_singleton]
  grind

theorem create (sound : t.Sound) (h : t.create key location held = .ok (index, next)) :
    next.Sound := by
  have places := places_create sound h
  have keyed := keys_create h
  obtain ⟨named, -, valid, rfl, rfl⟩ := (create_eq_ok_iff ..).mp h
  refine ⟨nodup_of_positions places, ?_, places, ?_, ?_⟩
  · rw [keyed, List.mem_append, List.mem_singleton]
    rintro (member | same)
    · exact sound.null_not_mem member
    · exact named same.symm
  · intro i r present
    rw [List.getElem?_append] at present
    split at present
    next => exact sound.index i r present
    next =>
      rw [List.getElem?_singleton] at present
      split at present
      next =>
        cases present
        dsimp only
        omega
      next => cases present
  · intro r member
    rw [List.mem_append, List.mem_singleton] at member
    rcases member with member | rfl
    · exact sound.valid r member
    · exact valid

end Sound

namespace Deletion

variable {t next : Table} {key : Key} {position : Nat} {last : Procedure}

theorem tail_key (d : Deletion t key next position last) :
    t.keys[t.records.length - 1]? = some last.key := by
  rw [Table.getElem?_keys, d.tail]
  rfl

theorem getElem?_keys (d : Deletion t key next position last) (i : Nat) :
    next.keys[i]? =
      if i + 1 < t.records.length then if i = position then some last.key else t.keys[i]?
      else none := by
  rw [Table.getElem?_keys, Table.getElem?_keys, d.records]
  by_cases before : i + 1 < t.records.length
  · by_cases here : i = position <;> simp [before, here]
  · simp [before]

-- The record that moves was not removed, so its new place is not the last.
theorem before_of_moves (d : Deletion t key next position last) (moves : last.key ≠ key) :
    position + 1 < t.records.length := by
  have inside := position_lt d.spot
  have apart : position ≠ t.records.length - 1 := by
    rintro rfl
    exact moves (Option.some.inj (d.tail_key.symm.trans d.spot))
  omega

theorem moves_of_before (d : Deletion t key next position last) (sound : t.Sound)
    (before : position + 1 < t.records.length) : last.key ≠ key := by
  intro same
  have unique := sound.position_unique (same ▸ d.tail_key) d.spot
  omega

theorem stays (d : Deletion t key next position last) {k : Key} {i : Nat}
    (listed : t.keys[i]? = some k) (kept : k ≠ key) (unmoved : k ≠ last.key) :
    i ≠ position ∧ i + 1 < t.records.length := by
  have bound := position_lt listed
  have elsewhere : i ≠ position := by
    rintro rfl
    exact kept (Option.some.inj (listed.symm.trans d.spot))
  have earlier : i ≠ t.records.length - 1 := by
    rintro rfl
    exact unmoved (Option.some.inj (listed.symm.trans d.tail_key))
  omega

theorem places (d : Deletion t key next position last) (sound : t.Sound) (k : Key) (i : Nat) :
    next.positions[k]? = some i ↔ next.keys[i]? = some k := by
  rw [d.positions, d.getElem?_keys]
  constructor
  · intro placed
    split at placed
    next => cases placed
    next kept =>
      split at placed
      next moved =>
        cases placed
        have before := d.before_of_moves (moved ▸ kept)
        simp [before, moved]
      next unmoved =>
        have old := (sound.positions k i).mp placed
        obtain ⟨elsewhere, before⟩ := d.stays old kept unmoved
        simp [before, elsewhere, old]
  · intro listed
    split at listed
    next before =>
      split at listed
      next here =>
        cases listed
        have moves := d.moves_of_before sound (here ▸ before)
        simp [moves, here]
      next elsewhere =>
        have kept : k ≠ key := by
          rintro rfl
          exact elsewhere (sound.position_unique listed d.spot)
        have unmoved : k ≠ last.key := by
          rintro rfl
          have unique := sound.position_unique listed d.tail_key
          omega
        rw [if_neg kept, if_neg unmoved]
        exact (sound.positions k i).mpr listed
    next => cases listed

theorem mem_keys (d : Deletion t key next position last) {k : Key} (member : k ∈ next.keys) :
    k ∈ t.keys := by
  obtain ⟨i, listed⟩ := List.mem_iff_getElem?.mp member
  rw [d.getElem?_keys] at listed
  split at listed
  next =>
    split at listed
    next =>
      cases listed
      exact List.mem_of_getElem? d.tail_key
    next => exact List.mem_of_getElem? listed
  next => cases listed

theorem origin (d : Deletion t key next position last) {i : Nat} {r : Procedure}
    (present : next.records[i]? = some r) :
    r.index = i + 1 ∧ last ∈ t.records ∧ r = { last with index := i + 1 } ∨
      t.records[i]? = some r := by
  have member := List.mem_of_getElem? d.tail
  rw [d.records] at present
  split at present
  next =>
    split at present
    next here =>
      cases present
      exact .inl ⟨by rw [here], member, by rw [here]⟩
    next => exact .inr present
  next => cases present

theorem same_capabilities (d : Deletion t key next position last) {r : Procedure}
    (member : r ∈ next.records) : ∃ q ∈ t.records, q.capabilities = r.capabilities := by
  obtain ⟨i, present⟩ := List.getElem?_of_mem member
  rcases d.origin present with ⟨-, inside, rfl⟩ | old
  · exact ⟨last, inside, rfl⟩
  · exact ⟨r, List.mem_of_getElem? old, rfl⟩

theorem keys_congr {u after : Table} {i : Nat} {p : Procedure}
    (d : Deletion t key next position last) (other : Deletion u key after i p) (sound : t.Sound)
    (keys : t.keys = u.keys) : next.keys = after.keys := by
  have length : t.records.length = u.records.length := by
    simpa [Table.keys] using congrArg List.length keys
  have spot := other.spot
  rw [← keys] at spot
  have place : position = i := sound.position_unique d.spot spot
  have moved : last.key = p.key := by
    have tail := d.tail_key
    rw [keys, length, other.tail_key] at tail
    exact (Option.some.inj tail).symm
  apply List.ext_getElem?
  intro n
  rw [d.getElem?_keys, other.getElem?_keys, keys, length, place, moved]

end Deletion

namespace Sound

variable {t next : Table} {key : Key} {removed : Procedure}

theorem delete (sound : t.Sound) (h : t.delete key = .ok (removed, next)) : next.Sound := by
  obtain ⟨position, last, d⟩ := deletion_of_delete sound h
  refine ⟨nodup_of_positions (d.places sound), ?_, d.places sound, ?_, ?_⟩
  · intro member
    exact sound.null_not_mem (d.mem_keys member)
  · intro i r present
    rcases d.origin present with ⟨index, -, -⟩ | old
    · exact index
    · exact sound.index i r old
  · intro r member
    obtain ⟨q, old, same⟩ := d.same_capabilities member
    rw [← same]
    exact sound.valid q old

theorem delete_of_contains (sound : t.Sound) (present : t.contains key = true) :
    ∃ removed next, t.delete key = .ok (removed, next) := by
  rw [contains_eq, Option.isSome_iff_exists] at present
  obtain ⟨position, placed⟩ := present
  have spot := (sound.positions key position).mp placed
  rw [Table.getElem?_keys, Option.map_eq_some_iff] at spot
  obtain ⟨p, found, -⟩ := spot
  simp only [Table.delete, placed, found]
  split <;> exact ⟨_, _, rfl⟩

end Sound

def registration? (t : Table) (key : Key) : Option (Location × Held) :=
  (t.lookup key).map fun p => (p.location, p.capabilities)

theorem registration?_of_lookup {t : Table} {key : Key} {p : Procedure}
    (found : t.lookup key = some p) : t.registration? key = some (p.location, p.capabilities) := by
  rw [registration?, found]
  rfl

theorem Sound.registration?_eq_none_iff {t : Table} (sound : t.Sound) (key : Key) :
    t.registration? key = none ↔ t.contains key = false := by
  rw [registration?, Option.map_eq_none_iff, ← Bool.not_eq_true, sound.contains_iff_lookup]
  cases t.lookup key <;> simp

theorem registration?_create {t next : Table} {key : Key} {location : Location} {held : Held}
    {index : Nat} (sound : t.Sound) (h : t.create key location held = .ok (index, next))
    (other : Key) :
    next.registration? other =
      if other = key then some (location, held) else t.registration? other := by
  rw [registration?, lookup_create sound h]
  split <;> rfl

theorem registration?_delete {t next : Table} {key : Key} {removed : Procedure} (sound : t.Sound)
    (h : t.delete key = .ok (removed, next)) (other : Key) :
    next.registration? other = if other = key then none else t.registration? other := by
  obtain ⟨position, last, d⟩ := deletion_of_delete sound h
  simp only [registration?, lookup, d.positions]
  by_cases gone : other = key
  · simp [gone]
  rw [if_neg gone, if_neg gone]
  by_cases moved : other = last.key
  · have before := d.before_of_moves (moved ▸ gone)
    rw [if_pos moved, moved, (sound.positions _ _).mpr d.tail_key]
    simp [d.records, d.tail, before]
  · rw [if_neg moved]
    cases placed : t.positions[other]? with
    | none => rfl
    | some i =>
      have old := (sound.positions other i).mp placed
      obtain ⟨elsewhere, before⟩ := d.stays old gone moved
      simp [d.records, before, elsewhere]

theorem Sound.lookup_congr {t u : Table} (sound : t.Sound) (other : u.Sound)
    (keys : t.keys = u.keys) {key : Key} (registered : t.registration? key = u.registration? key) :
    t.lookup key = u.lookup key := by
  cases found : t.lookup key with
  | none =>
    rw [registration?, found] at registered
    exact (Option.map_eq_none_iff.mp registered.symm).symm
  | some p =>
    rw [registration?_of_lookup found] at registered
    obtain ⟨q, found_other, same⟩ := Option.map_eq_some_iff.mp registered.symm
    obtain ⟨i, placed, there⟩ := Option.bind_eq_some_iff.mp found
    obtain ⟨j, placed_other, there_other⟩ := Option.bind_eq_some_iff.mp found_other
    rw [sound.positions_congr other keys, placed_other] at placed
    cases placed
    have index : p.index = q.index := by
      rw [sound.index i p there, other.index i q there_other]
    have named : p.key = q.key := by
      rw [((sound.lookup_iff key p).mp found).2, ((other.lookup_iff key q).mp found_other).2]
    rw [found_other]
    cases p
    cases q
    simp_all

theorem Sound.contains_create {t next : Table} {key : Key} {location : Location} {held : Held}
    {index : Nat} (sound : t.Sound) (h : t.create key location held = .ok (index, next))
    (other : Key) :
    next.contains other = true ↔ other = key ∨ t.contains other = true := by
  rw [← Bool.not_eq_false, ← (sound.create h).registration?_eq_none_iff,
    registration?_create sound h, ← Bool.not_eq_false, ← sound.registration?_eq_none_iff]
  split <;> simp_all

theorem Sound.contains_delete {t next : Table} {key : Key} {removed : Procedure} (sound : t.Sound)
    (h : t.delete key = .ok (removed, next)) (other : Key) :
    next.contains other = true ↔ other ≠ key ∧ t.contains other = true := by
  rw [← Bool.not_eq_false, ← (sound.delete h).registration?_eq_none_iff,
    registration?_delete sound h, ← Bool.not_eq_false, ← sound.registration?_eq_none_iff]
  split <;> simp_all

theorem Summarized.empty : Table.empty.Summarized := by
  intro r member
  cases member

theorem Summarized.create {t next : Table} {key : Key} {location : Location}
    {caps : List Capability} {index : Nat} (summarized : t.Summarized)
    (h : t.create key location (.ofList caps) = .ok (index, next)) : next.Summarized := by
  obtain ⟨-, -, -, -, rfl⟩ := (create_eq_ok_iff ..).mp h
  intro r member
  rw [List.mem_append, List.mem_singleton] at member
  rcases member with member | rfl
  · exact summarized r member
  · simp

theorem Summarized.delete {t next : Table} {key : Key} {removed : Procedure} (sound : t.Sound)
    (summarized : t.Summarized) (h : t.delete key = .ok (removed, next)) : next.Summarized := by
  obtain ⟨position, last, d⟩ := deletion_of_delete sound h
  intro r member
  obtain ⟨q, old, same⟩ := d.same_capabilities member
  rw [← same]
  exact summarized q old

theorem addCapability_eq_ok_iff (t next : Table) (key : Key) (c : Capability) :
    t.addCapability key c = .ok next ↔
      c.Valid ∧ ∃ position, t.positions[key]? = some position ∧
        next = { t with records := t.records.modify position fun r =>
          { r with capabilities := r.capabilities.push c } } := by
  unfold addCapability Capability.Valid
  cases c.fault? with
  | some fault => simp
  | none =>
    cases t.positions[key]? with
    | none => simp
    | some position => simp [eq_comm]

section

variable {t next : Table} {key : Key} {c : Capability}

theorem positions_addCapability (h : t.addCapability key c = .ok next) :
    next.positions = t.positions := by
  obtain ⟨-, position, -, rfl⟩ := (addCapability_eq_ok_iff ..).mp h
  rfl

theorem origin_addCapability (h : t.addCapability key c = .ok next) {i : Nat} {r : Procedure}
    (present : next.records[i]? = some r) :
    ∃ q, t.records[i]? = some q ∧
      (r = q ∨ c.Valid ∧ r = { q with capabilities := q.capabilities.push c }) := by
  obtain ⟨valid, position, -, rfl⟩ := (addCapability_eq_ok_iff ..).mp h
  simp only [List.getElem?_modify, Option.map_eq_map, Option.map_eq_some_iff] at present
  obtain ⟨q, old, rfl⟩ := present
  refine ⟨q, old, ?_⟩
  split
  next => exact .inr ⟨valid, rfl⟩
  next => exact .inl rfl

theorem keys_addCapability (h : t.addCapability key c = .ok next) : next.keys = t.keys := by
  obtain ⟨-, position, -, rfl⟩ := (addCapability_eq_ok_iff ..).mp h
  apply List.ext_getElem?
  intro i
  simp only [getElem?_keys, List.getElem?_modify]
  cases t.records[i]? with
  | none => rfl
  | some q => by_cases here : position = i <;> simp [here]

theorem Sound.addCapability (sound : t.Sound) (h : t.addCapability key c = .ok next) :
    next.Sound := by
  have keyed := keys_addCapability h
  have placed := positions_addCapability h
  refine ⟨keyed ▸ sound.nodup_keys, keyed ▸ sound.null_not_mem, ?_, ?_, ?_⟩
  · intro k i
    rw [keyed, placed]
    exact sound.positions k i
  · intro i r present
    obtain ⟨q, old, rfl | ⟨-, rfl⟩⟩ := origin_addCapability h present
    · exact sound.index i r old
    · exact sound.index i q old
  · intro r member
    obtain ⟨i, present⟩ := List.getElem?_of_mem member
    obtain ⟨q, old, granted⟩ := origin_addCapability h present
    have valid := sound.valid q (List.mem_of_getElem? old)
    rcases granted with rfl | ⟨fresh, rfl⟩
    · exact valid
    · intro d held
      rw [Held.caps_push, List.mem_append, List.mem_singleton] at held
      rcases held with early | rfl
      · exact valid d early
      · exact fresh

theorem Summarized.addCapability (summarized : t.Summarized)
    (h : t.addCapability key c = .ok next) : next.Summarized := by
  intro r member
  obtain ⟨i, present⟩ := List.getElem?_of_mem member
  obtain ⟨q, old, granted⟩ := origin_addCapability h present
  have bits := summarized q (List.mem_of_getElem? old)
  rcases granted with rfl | ⟨-, rfl⟩
  · exact bits
  · simp [Held.push, Held.summary, bits]

end

end Table

end RefMonitor
