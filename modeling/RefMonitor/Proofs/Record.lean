import RefMonitor.Proofs.Block
import RefMonitor.Proofs.TableHistory
import RefMonitor.Table.Wire

set_option autoImplicit false

namespace RefMonitor

structure Procedure.Readable (p : Procedure) : Prop where
  indexed : p.index < 2 ^ 64
  counted : p.capabilities.caps.length < 2 ^ 64
  summarized : p.capabilities = .ofList p.capabilities.caps
  readable : ∀ c ∈ p.capabilities.caps, c.Readable

theorem Procedure.Readable.valid {p : Procedure} (readable : p.Readable) :
    ∀ c ∈ p.capabilities.caps, c.Valid :=
  fun c member => (readable.readable c member).valid

def Procedure.header (p : Procedure) : List Word :=
  [p.key.toWord, .ofNat p.index, p.location.word, .ofNat p.capabilities.caps.length]

theorem Procedure.encode_eq (p : Procedure) :
    p.encode = p.header ++ Capability.encodeAll p.capabilities.caps := rfl

theorem Procedure.encode_pos (p : Procedure) : 1 ≤ p.encode.length := by
  simp [encode_eq, header]

namespace Table

variable {t next : Table} {c d : Cursor}

theorem passes_of_readRecord {index : Nat} {key : Key} {location : Location} {held : Held}
    (h : readRecord index c = .ok (key, location, held, d)) :
    Procedure.Readable ⟨key, index, location, held⟩ ∧
      c.Passes (Procedure.encode ⟨key, index, location, held⟩) d := by
  revert h
  fun_cases readRecord index c with
  | case1 | case2 | case3 | case4 | case5 | case7 => rintro ⟨⟩
  | case6 first key' named indexWord place count more indexed n counted caps last blocks rest =>
    intro h
    cases h
    rw [Decidable.not_not, Word.map_toUInt64?_eq_some_iff] at indexed
    obtain ⟨small, rfl⟩ := indexed
    obtain rfl := Key.toWord_of_ofWord named
    obtain rfl := (Word.toUInt64?_eq_some_iff ..).mp counted
    obtain ⟨length, readable, passes⟩ := (Capability.readBlocks_eq_ok_iff ..).mp blocks
    refine ⟨⟨small, by simp [length, n.toNat_lt], by simp, by simpa using readable⟩, ?_⟩
    rw [Procedure.encode_eq, Cursor.passes_append_iff]
    refine ⟨c.skip 4, ?_, by simpa using passes⟩
    simp only [Procedure.header, Held.caps_ofList, length]
    exact Cursor.passes_skip rest

theorem readRecord_of_passes {p : Procedure} (readable : p.Readable)
    (passes : c.Passes p.encode d) :
    readRecord p.index c = .ok (p.key, p.location, p.capabilities, d) := by
  rw [Procedure.encode_eq, Cursor.passes_append_iff] at passes
  obtain ⟨middle, header, blocks⟩ := passes
  have rest : c.rest = p.key.toWord :: .ofNat p.index :: p.location.word ::
      .ofNat p.capabilities.caps.length :: middle.rest := header.rest
  have indexed := (Word.map_toUInt64?_eq_some_iff ..).mpr ⟨readable.indexed, rfl⟩
  obtain ⟨n, counted, count⟩ := Option.map_eq_some_iff.mp
    ((Word.map_toUInt64?_eq_some_iff ..).mpr ⟨readable.counted, rfl⟩)
  have place : c.skip 4 = middle := header.eq_skip.symm
  have read := (Capability.readBlocks_eq_ok_iff ..).mpr ⟨count.symm, readable.readable, blocks⟩
  unfold readRecord
  rw [rest]
  simp only [Key.ofWord_toWord, indexed, counted, place, read, ne_eq, not_true_eq_false, if_false]
  rw [← readable.summarized]

theorem readRecord_ne_table (index : Nat) (c : Cursor) (fault : TableError) :
    readRecord index c ≠ .error (.table fault) := by
  fun_cases readRecord index c <;> rintro ⟨⟩

inductive Halts (t : Table) (c : Cursor) : Except TableWireError (Table × Cursor) → Prop where
  | truncated (rest : c.rest = []) : Halts t c (.error (.truncated c.offset))
  | ended {d : Cursor} (passes : c.Passes [.zero] d) : Halts t c (.ok (t, d))
  | unread {first : Word} {later : List Word} {e : TableWireError}
      (rest : c.rest = first :: later) (started : first ≠ .zero)
      (unread : readRecord (t.length + 1) c = .error e) : Halts t c (.error e)
  | duplicate {p : Procedure} {d : Cursor} (readable : p.Readable) (index : p.index = t.length + 1)
      (passes : c.Passes p.encode d) (present : p.key ∈ t.keys) :
      Halts t c (.error (.table (.duplicateKey p.key)))

theorem readRecords_of_start {first : Word} {later : List Word} (rest : c.rest = first :: later)
    (started : first ≠ .zero) :
    readRecords t c =
      match readRecord (t.length + 1) c with
      | .error e => .error e
      | .ok (key, location, held, d) =>
        match t.create key location held with
        | .error e => .error (.table e)
        | .ok (_, next) => readRecords next d := by
  have nonzero : ¬ first.isZero = true := by rwa [Word.isZero_iff_eq_zero]
  rw [readRecords, rest]
  dsimp only
  rw [if_neg nonzero]
  split
  next e unread => rw [unread]
  next key location held d read => exact read ▸ rfl

theorem readRecords_of_record {p : Procedure} (named : p.key ≠ .null) (readable : p.Readable)
    (index : p.index = t.length + 1) (passes : c.Passes p.encode d) :
    readRecords t c =
      match t.create p.key p.location p.capabilities with
      | .error e => .error (.table e)
      | .ok (_, next) => readRecords next d := by
  have started : p.key.toWord ≠ .zero := mt (Key.toWord_eq_zero_iff p.key).mp named
  rw [readRecords_of_start passes.rest started, ← index, readRecord_of_passes readable passes]

theorem readRecords_of_halts (sound : t.Sound) {r : Except TableWireError (Table × Cursor)}
    (halts : t.Halts c r) : readRecords t c = r := by
  cases halts with
  | truncated rest => rw [readRecords, rest]
  | ended passes =>
    rw [readRecords, passes.rest, passes.eq_skip]
    rfl
  | unread rest started unread => rw [readRecords_of_start rest started, unread]
  | @duplicate p d readable index passes present =>
    have named : p.key ≠ .null := by
      intro null
      exact sound.null_not_mem (null ▸ present)
    rw [readRecords_of_record named readable index passes, create_of_valid t named readable.valid,
      if_pos ((sound.contains_iff p.key).mpr present)]

theorem readRecords_of_created {p : Procedure} (readable : p.Readable)
    (passes : c.Passes p.encode d)
    (created : t.create p.key p.location p.capabilities = .ok (p.index, next)) :
    readRecords t c = readRecords next d := by
  obtain ⟨named, -, -, index, -⟩ := (create_eq_ok_iff ..).mp created
  rw [readRecords_of_record named readable index passes, created]

structure Takes (t : Table) (c : Cursor) (added : List Procedure) (next : Table) (d : Cursor) :
    Prop where
  sound : next.Sound
  records : next.records = t.records ++ added
  readable : ∀ p ∈ added, p.Readable
  passes : c.Passes (added.flatMap Procedure.encode) d

theorem Takes.none (sound : t.Sound) (c : Cursor) : t.Takes c [] t c where
  sound := sound
  records := by simp
  readable := by simp
  passes := (Cursor.passes_nil_iff ..).mpr rfl

theorem Takes.cons {p : Procedure} {added : List Procedure} {between : Table} {middle : Cursor}
    (readable : p.Readable) (passes : c.Passes p.encode middle)
    (grows : between.records = t.records ++ [p]) (takes : between.Takes middle added next d) :
    t.Takes c (p :: added) next d where
  sound := takes.sound
  records := by simp [takes.records, grows]
  readable := List.forall_mem_cons.mpr ⟨readable, takes.readable⟩
  passes := (Cursor.passes_append_iff ..).mpr ⟨middle, passes, takes.passes⟩

theorem readRecords_of_takes {added : List Procedure} (sound : t.Sound)
    (takes : t.Takes c added next d) : readRecords t c = readRecords next d := by
  induction added generalizing t c with
  | nil =>
    have same : t.records = next.records := by simp [takes.records]
    rw [sound.eq_of_records takes.sound same, (Cursor.passes_nil_iff ..).mp takes.passes]
  | cons p added ih =>
    obtain ⟨middle, created, rest, grows⟩ := created_of_records sound takes.sound takes.records
    obtain ⟨place, first, others⟩ := (Cursor.passes_append_iff ..).mp takes.passes
    obtain ⟨readable, more⟩ := List.forall_mem_cons.mp takes.readable
    rw [readRecords_of_created readable first created]
    exact ih rest ⟨takes.sound, by simp [takes.records, grows], more, others⟩

theorem named_of_start {first : Word} {later : List Word} {p : Procedure}
    (rest : c.rest = first :: later) (started : first ≠ .zero) (passes : c.Passes p.encode d) :
    p.key ≠ .null := by
  have same : first = p.key.toWord := (List.cons.inj (rest.symm.trans passes.rest)).1
  rwa [same, Ne, Key.toWord_eq_zero_iff] at started

theorem halts_readRecords (sound : t.Sound) (c : Cursor) :
    ∃ added next d, t.Takes c added next d ∧ next.Halts d (readRecords t c) := by
  fun_induction readRecords t c with
  | case1 t c rest => exact ⟨[], t, c, .none sound c, .truncated rest⟩
  | case2 t c first later rest zero =>
    rw [Word.isZero_iff_eq_zero] at zero
    subst zero
    exact ⟨[], t, c, .none sound c, .ended (Cursor.passes_skip rest)⟩
  | case3 t c first later rest started e unread =>
    rw [Word.isZero_iff_eq_zero] at started
    exact ⟨[], t, c, .none sound c, .unread rest started unread⟩
  | case4 t c first later rest started key location held d read e failed =>
    obtain ⟨readable, passes⟩ := passes_of_readRecord read
    rw [Word.isZero_iff_eq_zero] at started
    have named := named_of_start rest started passes
    rw [create_of_valid t named readable.valid] at failed
    split at failed
    next present =>
      cases failed
      have taken := (sound.contains_iff key).mp present
      exact ⟨[], t, c, .none sound c, .duplicate readable rfl passes taken⟩
    next => cases failed
  | case5 t c first later rest started key location held d read index next created ih =>
    obtain ⟨readable, passes⟩ := passes_of_readRecord read
    obtain ⟨added, last, finish, takes, halts⟩ := ih (sound.create created)
    obtain ⟨-, -, -, -, grows⟩ := (create_eq_ok_iff ..).mp created
    exact ⟨_, last, finish, .cons readable passes (by rw [grows]; rfl) takes, halts⟩

theorem readRecords_empty_eq_iff (c : Cursor) (r : Except TableWireError (Table × Cursor)) :
    readRecords .empty c = r ↔ ∃ t d, Table.empty.Takes c t.records t d ∧ t.Halts d r := by
  constructor
  · rintro rfl
    obtain ⟨added, t, d, takes, halts⟩ := halts_readRecords .empty c
    have records : t.records = added := takes.records
    exact ⟨t, d, records ▸ takes, halts⟩
  · rintro ⟨t, d, takes, halts⟩
    rw [readRecords_of_takes .empty takes, readRecords_of_halts takes.sound halts]

theorem decode_eq_ok_iff (words : List Word) (t : Table) :
    decode words = .ok t ↔ t.Sound ∧ (∀ p ∈ t.records, p.Readable) ∧ t.encode = words := by
  constructor
  · unfold decode
    generalize read : readRecords .empty (.ofWords words 0) = r
    obtain ⟨u, d, takes, halts⟩ := (readRecords_empty_eq_iff ..).mp read
    cases halts with
    | truncated | unread | duplicate => exact nofun
    | ended passes =>
      dsimp only
      split
      next finished =>
        intro h
        cases h
        have whole : words = _ := takes.passes.rest
        rw [passes.rest, finished, List.append_nil] at whole
        exact ⟨takes.sound, takes.readable, whole.symm⟩
      next => exact nofun
  · rintro ⟨sound, readable, rfl⟩
    obtain ⟨place, records, ends⟩ := (Cursor.passes_append_iff ..).mp
      (Cursor.passes_ofWords t.encode [])
    rw [List.append_nil] at records
    have read := (readRecords_empty_eq_iff ..).mpr
      ⟨t, place, ⟨sound, rfl, readable, records⟩, .ended ends⟩
    rw [decode, read]
    rfl

theorem decode_eq_table_error_iff (words : List Word) (fault : TableError) :
    decode words = .error (.table fault) ↔
      ∃ (t : Table) (p : Procedure) (later : List Word), t.Sound ∧
        (∀ r ∈ t.records, r.Readable) ∧ p.Readable ∧ p.index = t.length + 1 ∧ p.key ∈ t.keys ∧
        words = t.records.flatMap Procedure.encode ++ p.encode ++ later ∧
        fault = .duplicateKey p.key := by
  constructor
  · unfold decode
    generalize read : readRecords .empty (.ofWords words 0) = r
    obtain ⟨t, d, takes, halts⟩ := (readRecords_empty_eq_iff ..).mp read
    cases halts with
    | truncated => exact nofun
    | ended =>
      dsimp only
      split <;> exact nofun
    | unread rest started unread =>
      intro h
      cases h
      exact absurd unread (readRecord_ne_table _ _ fault)
    | @duplicate p d readable index passes present =>
      intro h
      cases h
      have whole : words = _ := takes.passes.rest
      rw [passes.rest, ← List.append_assoc] at whole
      exact ⟨t, p, d.rest, takes.sound, takes.readable, readable, index, present, whole, rfl⟩
  · rintro ⟨t, p, later, sound, readable, last, index, present, rfl, rfl⟩
    obtain ⟨place, records, passes⟩ := (Cursor.passes_append_iff ..).mp
      (Cursor.passes_ofWords (t.records.flatMap Procedure.encode ++ p.encode) later)
    have read := (readRecords_empty_eq_iff ..).mpr
      ⟨t, place, ⟨sound, rfl, readable, records⟩, .duplicate last index passes present⟩
    rw [decode, read]

theorem Intact.readable (intact : t.Intact) (fits : t.encode.length < 2 ^ 64) :
    ∀ p ∈ t.records, p.Readable := by
  intro p member
  obtain ⟨i, place⟩ := List.getElem?_of_mem member
  have inside := (List.getElem?_eq_some_iff.mp place).1
  have index := intact.sound.index i p place
  have whole : t.encode.length = (t.records.flatMap Procedure.encode).length + 1 := by
    simp [encode]
  have records := length_le_flatMap Procedure.encode_pos t.records
  have part : p.encode.length ≤ (t.records.flatMap Procedure.encode).length :=
    (sublist_flatMap_of_mem member).length_le
  have blocks : p.encode.length = 4 + (Capability.encodeAll p.capabilities.caps).length := by
    simp [Procedure.encode_eq, Procedure.header]
    omega
  have caps : p.capabilities.caps.length ≤ (Capability.encodeAll p.capabilities.caps).length :=
    length_le_flatMap Capability.encode_pos p.capabilities.caps
  have counted : ∀ c ∈ p.capabilities.caps, c.values.length + 1 < 2 ^ 64 :=
    Capability.counted_of_length (by omega)
  exact ⟨by omega, by omega, (Held.eq_ofList_iff _).mpr (intact.summarized p member),
    fun c held => ⟨intact.sound.valid p member c held, counted c held⟩⟩

theorem decode_encode (intact : t.Intact) (fits : t.encode.length < 2 ^ 64) :
    decode t.encode = .ok t :=
  (decode_eq_ok_iff ..).mpr ⟨intact.sound, intact.readable fits, rfl⟩

/-- The bound on the number of words is that of memory. -/
theorem history_round_trips (edits : List Edit)
    (fits : (history edits).encode.length < 2 ^ 64) :
    decode (history edits).encode = .ok (history edits) :=
  decode_encode (intact_history edits) fits

def usher : Key := ⟨[117], by simp, by simp⟩

def page : Key := ⟨[112, 97, 103, 101], by simp, by simp⟩

-- The first record is deleted, and the second, which gains a capability, moves into its place.
-- Three of the edits are refused.
def reshuffle : List Edit :=
  [.create usher (.ofUInt64 7) [.write .zero .zero], .create page default [.call [], .log [.zero]],
    .create usher (.ofUInt64 8) [], .delete usher, .delete usher, .grant usher .setEntry,
    .grant page (.delete [usher, page])]

theorem history_round_trips_reshuffle :
    (history reshuffle).keys = [page] ∧ (history reshuffle).encode.length < 2 ^ 64 ∧
    decode (history reshuffle).encode = .ok (history reshuffle) := by
  have fits : (history reshuffle).encode.length < 2 ^ 64 := by decide
  exact ⟨by decide, fits, history_round_trips reshuffle fits⟩

/-- Where the words break a rule of tables, a record has the key of one before it. -/
theorem decode_accepts_encodings (words : List Word) :
    (∀ t, decode words = .ok t → t.encode = words ∧ t.Sound ∧ t.Summarized) ∧
    (words.length < 2 ^ 64 → ∀ t : Table, t.Intact → t.encode = words → decode words = .ok t) ∧
    ∀ fault, decode words = .error (.table fault) →
      ∃ (earlier : Table) (p : Procedure) (later : List Word), earlier.Sound ∧
        words = earlier.records.flatMap Procedure.encode ++ p.encode ++ later ∧
        p.key ∈ earlier.keys ∧ fault = .duplicateKey p.key := by
  refine ⟨?_, ?_, ?_⟩
  · intro t accepted
    obtain ⟨sound, readable, written⟩ := (decode_eq_ok_iff ..).mp accepted
    refine ⟨written, sound, ?_⟩
    intro p member
    exact (Held.eq_ofList_iff _).mp (readable p member).summarized
  · rintro fits t intact rfl
    exact decode_encode intact fits
  · intro fault refused
    obtain ⟨earlier, p, later, sound, -, -, -, present, whole, rfl⟩ :=
      (decode_eq_table_error_iff ..).mp refused
    exact ⟨earlier, p, later, sound, whole, present, rfl⟩

def lodge : Table := history [.create usher default [.setEntry]]

def double : Procedure := ⟨usher, 2, .ofUInt64 9, .empty⟩

theorem decode_accepts_encodings_lodge :
    (decode lodge.encode = .ok lodge ∧ lodge.Sound) ∧
    decode (lodge.records.flatMap Procedure.encode ++ double.encode) =
      .error (.table (.duplicateKey usher)) ∧
    ∃ (earlier : Table) (p : Procedure) (later : List Word), earlier.Sound ∧
      lodge.records.flatMap Procedure.encode ++ double.encode =
        earlier.records.flatMap Procedure.encode ++ p.encode ++ later ∧
      p.key ∈ earlier.keys ∧ TableError.duplicateKey usher = .duplicateKey p.key := by
  have fits : lodge.encode.length < 2 ^ 64 := by decide
  have intact : lodge.Intact := intact_history _
  have readable : double.Readable := ⟨by decide, by decide, rfl, by simp [double, Held.empty]⟩
  have refused : decode (lodge.records.flatMap Procedure.encode ++ double.encode) =
      .error (.table (.duplicateKey usher)) := by
    refine (decode_eq_table_error_iff ..).mpr ⟨lodge, double, [], intact.sound,
      intact.readable fits, readable, rfl, by decide, by simp, rfl⟩
  have accepted := (decode_accepts_encodings lodge.encode).2.1 fits lodge intact rfl
  obtain ⟨-, sound, -⟩ := (decode_accepts_encodings lodge.encode).1 lodge accepted
  exact ⟨⟨accepted, sound⟩, refused, (decode_accepts_encodings _).2.2 _ refused⟩

end Table

end RefMonitor
