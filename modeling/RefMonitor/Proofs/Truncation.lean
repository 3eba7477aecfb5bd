import RefMonitor.Proofs.FirstFault
import RefMonitor.Proofs.Record

set_option autoImplicit false

namespace RefMonitor

inductive TableWireError.CutShort : TableWireError → Prop where
  | header (offset : Nat) : CutShort (.truncated offset)
  | block (offset : Nat) : CutShort (.capability (.truncated offset))

theorem Capability.readBlocks_of_cut {caps : List Capability} {c : Cursor} {n : Nat}
    (readable : ∀ cap ∈ caps, cap.Readable) (cut : n < (encodeAll caps).length)
    (rest : c.rest = (encodeAll caps).take n) :
    ∃ offset, readBlocks caps.length c = .error (.truncated offset) := by
  induction caps generalizing c n with
  | nil => simp at cut
  | cons cap caps ih =>
    rw [List.forall_mem_cons] at readable
    rw [encodeAll_cons] at cut rest
    rw [List.length_cons, readBlocks]
    by_cases inside : n < cap.encode.length
    · rw [List.take_append_of_le_length (Nat.le_of_lt inside)] at rest
      rw [readBlock_of_cut readable.1 inside rest]
      exact ⟨_, rfl⟩
    · rw [List.take_append, List.take_of_length_le (Nat.le_of_not_lt inside)] at rest
      rw [List.length_append] at cut
      have passes := Cursor.passes_skip rest
      obtain ⟨offset, unread⟩ := @ih (c.skip cap.encode.length) (n - cap.encode.length) readable.2
        (by omega) (List.append_cancel_left (passes.rest.symm.trans rest))
      rw [readBlock_of_passes readable.1 passes]
      exact ⟨offset, (map_eq_error_iff ..).mpr unread⟩

namespace Table

variable {t next : Table} {c : Cursor}

theorem readRecord_of_cut {p : Procedure} {n : Nat} (readable : p.Readable)
    (cut : n < p.encode.length) (rest : c.rest = p.encode.take n) :
    ∃ e : TableWireError, readRecord p.index c = .error e ∧ e.CutShort := by
  rw [Procedure.encode_eq] at cut rest
  by_cases inside : n < p.header.length
  · refine ⟨.truncated c.offset, ?_, .header _⟩
    rw [List.take_append_of_le_length (Nat.le_of_lt inside)] at rest
    unfold readRecord
    rw [rest]
    match n, inside with
    | 0, _ => rfl
    | 1, _ | 2, _ | 3, _ => simp [Procedure.header, Key.ofWord_toWord]
  · rw [List.take_append, List.take_of_length_le (Nat.le_of_not_lt inside)] at rest
    rw [List.length_append] at cut
    have header := Cursor.passes_skip rest
    have indexed := (Word.map_toUInt64?_eq_some_iff ..).mpr ⟨readable.indexed, rfl⟩
    obtain ⟨count, counted, size⟩ := Option.map_eq_some_iff.mp
      ((Word.map_toUInt64?_eq_some_iff ..).mpr ⟨readable.counted, rfl⟩)
    obtain ⟨offset, unread⟩ := Capability.readBlocks_of_cut (c := c.skip 4) readable.readable
      (Nat.sub_lt_left_of_lt_add (Nat.le_of_not_lt inside) cut)
      (List.append_cancel_left (header.rest.symm.trans rest))
    refine ⟨.capability (.truncated offset), ?_, .block offset⟩
    unfold readRecord
    rw [rest]
    simp [Procedure.header, Key.ofWord_toWord, indexed, counted, size, unread]

theorem exists_front {done later : List Procedure} (sound : t.Sound) (grown : next.Sound)
    (records : next.records = t.records ++ (done ++ later)) :
    ∃ front : Table, front.Sound ∧ front.records = t.records ++ done := by
  induction done generalizing t with
  | nil => exact ⟨t, sound, by simp⟩
  | cons p done ih =>
    obtain ⟨middle, -, kept, grows⟩ := created_of_records sound grown records
    obtain ⟨front, sound_front, same⟩ := ih kept (by simp [records, grows])
    exact ⟨front, sound_front, by simp [same, grows]⟩

theorem halts_of_cut {p : Procedure} {n : Nat} (readable : p.Readable) (named : p.key ≠ .null)
    (index : p.index = t.length + 1) (cut : n < p.encode.length) (rest : c.rest = p.encode.take n) :
    ∃ e : TableWireError, t.Halts c (.error e) ∧ e.CutShort := by
  cases n with
  | zero => exact ⟨_, .truncated rest, .header _⟩
  | succ n =>
    obtain ⟨e, unread, short⟩ := readRecord_of_cut readable cut rest
    have started : p.key.toWord ≠ .zero := mt (Key.toWord_eq_zero_iff p.key).mp named
    rw [index] at unread
    exact ⟨e, .unread rest started unread, short⟩

theorem decode_of_halts {words more : List Word} {e : TableWireError} (sound : t.Sound)
    (readable : ∀ p ∈ t.records, p.Readable)
    (whole : words = t.records.flatMap Procedure.encode ++ more)
    (halts : t.Halts ⟨(t.records.flatMap Procedure.encode).length, more⟩ (.error e)) :
    decode words = .error e := by
  have takes : Table.empty.Takes (.ofWords words 0) t.records t ⟨_, more⟩ :=
    ⟨sound, rfl, readable, whole ▸ Cursor.passes_ofWords _ more⟩
  rw [decode, (readRecords_empty_eq_iff ..).mpr ⟨t, _, takes, halts⟩]

theorem decode_of_cut (intact : t.Intact) (fits : t.encode.length < 2 ^ 64) {n : Nat}
    (cut : n < t.encode.length) :
    ∃ e : TableWireError, decode (t.encode.take n) = .error e ∧ e.CutShort := by
  have readable := intact.readable fits
  rw [encode, List.length_append, List.length_singleton] at cut
  rw [encode, List.take_append_of_le_length (by omega)]
  by_cases inside : n < (t.records.flatMap Procedure.encode).length
  · obtain ⟨done, p, later, parts, before, after⟩ := exists_cut inside
    obtain ⟨front, sound, rfl⟩ : ∃ front : Table, front.Sound ∧ front.records = done :=
      exists_front .empty intact.sound parts
    have member : p ∈ t.records := by simp [parts]
    have index : p.index = front.length + 1 :=
      intact.sound.index front.length p (by simp [parts, length])
    obtain ⟨e, halts, short⟩ := halts_of_cut (c := ⟨_, _⟩) (readable p member)
      (intact.sound.named member) index (Nat.sub_lt_left_of_lt_add before after) rfl
    have whole : (t.records.flatMap Procedure.encode).take n =
        front.records.flatMap Procedure.encode ++
          p.encode.take (n - (front.records.flatMap Procedure.encode).length) := by
      rw [parts]
      exact take_flatMap before after
    refine ⟨e, decode_of_halts sound ?_ whole halts, short⟩
    intro q earlier
    exact readable q (by simp [parts, earlier])
  · -- Only the zero word at the end is missing.
    refine ⟨_, decode_of_halts intact.sound readable ?_ (.truncated rfl), .header _⟩
    rw [List.take_of_length_le (Nat.le_of_not_lt inside), List.append_nil]

theorem decode_of_trailing (intact : t.Intact) (fits : t.encode.length < 2 ^ 64)
    {more : List Word} (trailing : more ≠ []) :
    decode (t.encode ++ more) = .error (.trailing t.encode.length) := by
  obtain ⟨place, records, ends⟩ := (Cursor.passes_append_iff ..).mp
    (Cursor.passes_ofWords t.encode more)
  have read := (readRecords_empty_eq_iff ..).mpr
    ⟨t, place, ⟨intact.sound, rfl, intact.readable fits, records⟩, .ended ends⟩
  rw [decode, read]
  exact if_neg trailing

/-- No two tables have encodings of which one begins the other. The bound on the number of words is
that of memory. -/
theorem encoding_delimits_itself (edits : List Edit)
    (fits : (history edits).encode.length < 2 ^ 64) :
    (∀ words, words <+: (history edits).encode → words ≠ (history edits).encode →
      ∃ e : TableWireError, decode words = .error e ∧ e.CutShort) ∧
    (∀ more, more ≠ [] → decode ((history edits).encode ++ more) =
      .error (.trailing (history edits).encode.length)) ∧
    ∀ others, (history others).encode <+: (history edits).encode →
      history others = history edits := by
  have intact := intact_history edits
  have short : ∀ words, words <+: (history edits).encode → words ≠ (history edits).encode →
      ∃ e : TableWireError, decode words = .error e ∧ e.CutShort := by
    intro words start proper
    rw [List.prefix_iff_eq_take.mp start]
    refine decode_of_cut intact fits (Nat.lt_of_le_of_ne start.length_le ?_)
    intro length
    exact proper (start.eq_of_length length)
  refine ⟨short, fun more trailing => decode_of_trailing intact fits trailing, ?_⟩
  intro others start
  have read := decode_encode (intact_history others) (Nat.lt_of_le_of_lt start.length_le fits)
  by_cases same : (history others).encode = (history edits).encode
  · rw [same, decode_encode intact fits] at read
    exact (Except.ok.inj read).symm
  · obtain ⟨e, unread, -⟩ := short _ start same
    rw [read] at unread
    cases unread

theorem encoding_delimits_itself_reshuffle :
    (∃ e : TableWireError, decode ((history reshuffle).encode.take 7) = .error e ∧ e.CutShort) ∧
    (∃ e : TableWireError, decode (history reshuffle).encode.dropLast = .error e ∧ e.CutShort) ∧
    decode ((history reshuffle).encode ++ [.zero]) =
      .error (.trailing (history reshuffle).encode.length) := by
  obtain ⟨short, trailing, -⟩ := encoding_delimits_itself reshuffle (by decide)
  refine ⟨short _ (List.take_prefix ..) ?_, short _ (List.dropLast_prefix _) ?_,
    trailing _ (by simp)⟩
  all_goals decide

end Table

end RefMonitor
