import RefMonitor.Fetch
import RefMonitor.Proofs.FirstFault
import RefMonitor.Proofs.Record

set_option autoImplicit false

namespace RefMonitor

namespace Fetch

variable {ε : Type} {words : List Word}

theorem sum?_of_lt {a b : Nat} (fits : a + b < 2 ^ 64) : sum? a b = some (a + b) := if_pos fits

theorem sum_of_lt {a b : Nat} (fits : a + b < 2 ^ 64) :
    (sum a b : Except (Stop ε) Nat) = .ok (a + b) := by
  rw [sum, sum?_of_lt fits]

theorem word_of_getElem? {position : Nat} {w : Word} (found : words[position]? = some w) :
    (word words position : Except (Stop ε) Word) = .ok w := by
  rw [word, found]

theorem slice?_of_le {start stop : Nat} (ordered : start ≤ stop) (inside : stop ≤ words.length) :
    slice? words start stop = some ((words.take stop).drop start) :=
  if_pos ⟨ordered, inside⟩

theorem slice_of_le {start stop : Nat} (ordered : start ≤ stop) (inside : stop ≤ words.length) :
    (slice words start stop : Except (Stop ε) (List Word)) =
      .ok ((words.take stop).drop start) := by
  rw [slice, slice?_of_le ordered inside]

theorem stop?_eq (room : words.length < 2 ^ 64) (offset count : Nat) :
    stop? words offset count =
      if offset + (count + 1) ≤ words.length then some (offset + (count + 1)) else none := by
  unfold stop? sum?
  grind

/-- A reader with positions does what one without does: it gives the same result or refuses the
words with the same error, and nothing else stops it. -/
def Agrees {α : Type} (x : Except (Stop ε) α) (y : Except ε α) : Prop := x = y.mapError .refused

theorem Agrees.map {α β : Type} {x : Except (Stop ε) α} {y : Except ε α} (agrees : Agrees x y)
    (f : α → β) : Agrees (x.map f) (y.map f) := by
  rw [Agrees, agrees]
  cases y <;> rfl

theorem Agrees.of_ok {α : Type} {x : Except (Stop ε) α} {y : Except ε α} {a : α}
    (agrees : Agrees x y) (h : x = .ok a) : y = .ok a := by
  rw [Agrees, h] at agrees
  cases y with
  | error => cases agrees
  | ok => exact congrArg Except.ok (Except.ok.inj agrees).symm

theorem Agrees.of_error {α : Type} {x : Except (Stop ε) α} {y : Except ε α} {stop : Stop ε}
    (agrees : Agrees x y) (h : x = .error stop) : ∃ e, stop = .refused e ∧ y = .error e := by
  rw [Agrees, h] at agrees
  cases y with
  | error e => exact ⟨e, Except.error.inj agrees, rfl⟩
  | ok => cases agrees

theorem keys_agrees {base i : Nat} {values : List Word} (fits : base + i + values.length ≤ 2 ^ 64) :
    Agrees (keys base i values) (Capability.readKeys (base + i) values) := by
  induction values generalizing i with
  | nil => rfl
  | cons w values ih =>
    rw [List.length_cons] at fits
    rw [keys, sum_of_lt (by omega), Capability.readKeys]
    cases Key.ofWord w with
    | error e => rfl
    | ok k =>
      dsimp only [bind, Except.bind]
      split
      next => rfl
      next =>
        apply Agrees.map
        apply ih
        omega

variable {offset : Nat}

theorem scope_agrees {values : List Word} (fits : offset + 2 + values.length < 2 ^ 64) :
    Agrees (scope offset values) (Capability.readKeys (offset + 2) values) := by
  rw [scope, sum_of_lt (by omega)]
  apply keys_agrees
  omega

theorem capability_agrees {op : Operation} {values : List Word}
    (fits : offset + 2 + values.length < 2 ^ 64) :
    Agrees (capability offset op values) (Capability.ofValues offset op values) := by
  cases op with
  | write => rcases values with _ | ⟨address, _ | ⟨size, _ | ⟨more, values⟩⟩⟩ <;> rfl
  | log =>
    simp only [capability, Capability.ofValues]
    split <;> rfl
  | setEntry => cases values <;> rfl
  | call | delete | register => exact (scope_agrees fits).map _

theorem length_of_drop {first : Word} {later : List Word}
    (rest : words.drop offset = first :: later) : words.length = offset + (later.length + 1) := by
  have length := congrArg List.length rest
  rw [List.length_drop, List.length_cons] at length
  omega

theorem body_of_drop {size type : Word} {body values : List Word} {n : Nat}
    (rest : words.drop offset = size :: body) (taken : body.take n = type :: values)
    (enough : n ≤ body.length) :
    words[offset + 1]? = some type ∧ offset + 2 ≤ offset + (n + 1) ∧
      (words.take (offset + (n + 1))).drop (offset + 2) = values := by
  have count := congrArg List.length taken
  rw [List.length_take, List.length_cons] at count
  have head : body[0]? = some type := by
    rw [← List.getElem?_take_of_lt (show 0 < n by omega), taken]
    rfl
  refine ⟨?_, by omega, ?_⟩
  · rw [← List.getElem?_drop, rest]
    exact head
  · have tail : (body.take n).drop 1 = values := by rw [taken]; rfl
    have width : offset + (n + 1) - (offset + 2) = n - 1 := by omega
    rw [List.drop_take, ← List.drop_drop, rest, width, ← tail, List.drop_take]
    rfl

theorem block_of_body {size type : Word} {body values : List Word} {n : UInt64}
    (room : words.length < 2 ^ 58) (rest : words.drop offset = size :: body)
    (counted : size.toUInt64? = some n) (taken : body.take n.toNat = type :: values)
    (enough : n.toNat ≤ body.length) :
    block words offset =
      (type.toUInt64?.bind fun id => Operation.ofWireId? id.toNat).elim
        (.error (.refused (.unknownType offset)))
        fun op => (capability offset op values).map (·, offset + (n.toNat + 1)) := by
  obtain ⟨second, ordered, part⟩ := body_of_drop rest taken enough
  have found : words[offset]? = some size := by rw [← List.head?_drop, rest]; rfl
  have inside : offset + (n.toNat + 1) ≤ words.length := by
    rw [length_of_drop rest]
    omega
  have positive : n ≠ 0 := by
    rintro rfl
    cases taken
  rw [block, found, Option.bind_some, counted]
  dsimp only
  rw [if_neg positive, stop?_eq (by omega), if_pos inside]
  dsimp only
  rw [sum_of_lt (show offset + 1 < 2 ^ 64 by omega), sum_of_lt (show offset + 2 < 2 ^ 64 by omega)]
  dsimp only [bind, Except.bind]
  rw [word_of_getElem? second, slice_of_le ordered inside, part]
  dsimp only
  cases type.toUInt64?.bind fun id => Operation.ofWireId? id.toNat <;> rfl

theorem block_agrees (room : words.length < 2 ^ 58) (offset : Nat) :
    Agrees (block words offset) (Capability.decodeAt words offset) := by
  unfold Capability.decodeAt
  generalize place : Cursor.ofWords words offset = c
  obtain rfl : offset = c.offset := by rw [← place]; rfl
  have from_here : words.drop c.offset = c.rest := by rw [← place]; rfl
  have found : words[c.offset]? = c.rest.head? := by rw [← from_here, List.head?_drop]
  fun_cases Capability.readBlock c with
  | case1 rest =>
    rw [block, found, rest]
    rfl
  | case2 size body rest uncounted =>
    rw [block, found, rest, List.head?_cons, Option.bind_some, uncounted]
    rfl
  | case3 size body rest n counted short =>
    have positive : n ≠ 0 := by
      rintro rfl
      simp at short
    have past : ¬ c.offset + (n.toNat + 1) ≤ words.length := by
      rw [length_of_drop (from_here.trans rest)]
      omega
    rw [block, found, rest, List.head?_cons, Option.bind_some, counted]
    dsimp only
    rw [if_neg positive, stop?_eq (by omega), if_neg past]
    rfl
  | case4 size body rest n counted enough taken =>
    have nothing : n = 0 := by
      have width := congrArg List.length taken
      rw [List.length_take, Nat.min_eq_left (Nat.le_of_not_lt enough)] at width
      exact UInt64.toNat_inj.mp width
    rw [block, found, rest, List.head?_cons, Option.bind_some, counted]
    dsimp only
    rw [if_pos nothing]
    rfl
  | case5 size body rest n counted enough type values taken unknown =>
    rw [rest] at from_here
    rw [block_of_body room from_here counted taken (Nat.le_of_not_lt enough), unknown]
    rfl
  | case6 size body rest n counted enough type values taken op known =>
    rw [rest] at from_here
    rw [block_of_body room from_here counted taken (Nat.le_of_not_lt enough), known]
    have length := length_of_drop from_here
    have width := congrArg List.length taken
    rw [List.length_take, List.length_cons] at width
    have agrees : Agrees (capability c.offset op values) (Capability.ofValues c.offset op values) :=
      capability_agrees (by omega)
    have located := agrees.map fun cap => (cap, c.offset + (n.toNat + 1))
    cases value : Capability.ofValues c.offset op values <;> rw [value] at located <;> exact located

end Fetch

namespace Capability

variable {words : List Word} {offset next : Nat} {cap : Capability}

theorem readBlock_place {d : Cursor} (read : readBlock (.ofWords words offset) = .ok (cap, d)) :
    d = .ofWords words (offset + cap.encodedLength) ∧
      offset + cap.encodedLength ≤ words.length := by
  have passes := (passes_of_readBlock read).2
  rw [← length_encode]
  exact ⟨passes.place, passes.within cap.encode_pos⟩

theorem decodeAt_place (read : decodeAt words offset = .ok (cap, next)) :
    next = offset + cap.encodedLength ∧ offset + 2 ≤ next ∧ next ≤ words.length := by
  obtain ⟨⟨value, d⟩, block, same⟩ := (map_eq_ok_iff ..).mp read
  cases same
  obtain ⟨rfl, inside⟩ := readBlock_place block
  exact ⟨rfl, Nat.add_le_add_left (Nat.le_add_right ..) offset, inside⟩

theorem decodeBlocks_succ (words : List Word) (offset count : Nat) :
    decodeBlocks words offset (count + 1) =
      match decodeAt words offset with
      | .error e => .error e
      | .ok (cap, next) => (decodeBlocks words next count).map fun r => (cap :: r.1, r.2) := by
  unfold decodeBlocks decodeAt
  rw [readBlocks]
  cases read : readBlock (.ofWords words offset) with
  | error => rfl
  | ok r =>
    obtain ⟨cap, d⟩ := r
    obtain ⟨rfl, -⟩ := readBlock_place read
    dsimp only [Except.map, Cursor.ofWords]
    cases readBlocks count _ <;> rfl

theorem readAll_ofWords (words : List Word) (offset : Nat) :
    readAll (.ofWords words offset) =
      if offset < words.length then
        match decodeAt words offset with
        | .error e => .error e
        | .ok (cap, next) => (readAll (.ofWords words next)).map (cap :: ·)
      else .ok [] := by
  have ended : words.drop offset = [] ↔ ¬ offset < words.length := by
    rw [List.drop_eq_nil_iff, Nat.not_lt]
  by_cases inside : offset < words.length
  · rw [if_pos inside, decodeAt]
    cases read : readBlock (.ofWords words offset) with
    | error e =>
      rw [readAll_of_unread (fun nothing => ended.mp nothing inside) read]
      rfl
    | ok r =>
      obtain ⟨cap, d⟩ := r
      obtain ⟨readable, passes⟩ := passes_of_readBlock read
      obtain ⟨rfl, -⟩ := readBlock_place read
      rw [readAll_of_block readable passes]
      rfl
  · rw [if_neg inside]
    exact (readAll_eq_ok_iff ..).mpr ⟨by simp, ended.mpr inside⟩

theorem decodeBlocks_place {count : Nat} {caps : List Capability}
    (read : decodeBlocks words offset count = .ok (caps, next)) :
    offset + 2 * count ≤ next ∧ (next = offset ∨ next ≤ words.length) := by
  induction count generalizing offset caps with
  | zero =>
    cases read
    exact ⟨Nat.le_refl _, .inl rfl⟩
  | succ count ih =>
    rw [decodeBlocks_succ] at read
    split at read
    next => cases read
    next cap middle block =>
      obtain ⟨⟨later, last⟩, more, same⟩ := (map_eq_ok_iff ..).mp read
      cases same
      obtain ⟨-, wide, inside⟩ := decodeAt_place block
      obtain ⟨far, within⟩ := ih more
      exact ⟨by omega, by omega⟩

end Capability

namespace Fetch

variable {words : List Word}

theorem blocks_agrees (room : words.length < 2 ^ 58) (count offset : Nat) :
    Agrees (blocks words count offset) (Capability.decodeBlocks words offset count) := by
  induction count generalizing offset with
  | zero => rfl
  | succ count ih =>
    have first := block_agrees room offset
    rw [Agrees] at first
    rw [blocks, Capability.decodeBlocks_succ, first]
    cases Capability.decodeAt words offset with
    | error e => rfl
    | ok r =>
      exact (ih r.2).map _

-- The loop is followed step by step; that it stalls is the case that cannot be.
theorem list_agrees (room : words.length < 2 ^ 58) (cursor : Nat) :
    Agrees (list words cursor) (Capability.readAll (.ofWords words cursor)) := by
  have first := block_agrees room
  fun_induction list words cursor with
  | case1 cursor inside stop unread =>
    obtain ⟨e, rfl, same⟩ := (first cursor).of_error unread
    rw [Capability.readAll_ofWords, if_pos inside, same]
    rfl
  | case2 cursor inside cap next read moves ih =>
    rw [Capability.readAll_ofWords, if_pos inside, (first cursor).of_ok read]
    exact ih.map _
  | case3 cursor inside cap next read stalls =>
    have wide := (Capability.decodeAt_place ((first cursor).of_ok read)).2.1
    omega
  | case4 cursor outside =>
    rw [Capability.readAll_ofWords, if_neg outside]
    rfl

theorem header_of_drop {first indexWord location count : Word} {more : List Word} {cursor : Nat}
    (rest : words.drop cursor = first :: indexWord :: location :: count :: more) :
    slice? words (cursor + 1) (cursor + 4) = some [indexWord, location, count] := by
  have length := length_of_drop rest
  simp only [List.length_cons] at length
  rw [slice?_of_le (by omega) (by omega), List.drop_take, ← List.drop_drop, rest]
  have width : cursor + 4 - (cursor + 1) = 3 := by omega
  rw [width]
  rfl

theorem slice?_of_short {start stop : Nat} (short : words.length < stop) :
    slice? words start stop = none :=
  if_neg fun within => Nat.not_le_of_lt short within.2

theorem record_agrees (room : words.length < 2 ^ 58) {length cursor : Nat} {first : Word}
    {later : List Word} {key : Key} (rest : words.drop cursor = first :: later)
    (named : Key.ofWord first = .ok key) (few : length ≤ cursor) :
    Agrees ((record words length cursor).map fun r => (key, r))
      ((Table.readRecord (length + 1) (.ofWords words cursor)).map
        fun r => (r.1, r.2.1, r.2.2.1, r.2.2.2.offset)) := by
  have length_words := length_of_drop rest
  have place : Cursor.skip ⟨cursor, first :: later⟩ 4 = .ofWords words (cursor + 4) := by
    rw [← rest, Cursor.skip, List.drop_drop]
    rfl
  simp only [record, sum_of_lt (show cursor + 1 < 2 ^ 64 by omega),
    sum_of_lt (show cursor + 4 < 2 ^ 64 by omega), sum_of_lt (show length + 1 < 2 ^ 64 by omega),
    sum_of_lt (show cursor + 3 < 2 ^ 64 by omega), bind, Except.bind]
  unfold Table.readRecord
  dsimp only [Cursor.ofWords]
  rw [rest]
  dsimp only
  rw [named]
  dsimp only
  rcases later with _ | ⟨indexWord, _ | ⟨location, _ | ⟨count, more⟩⟩⟩
  case cons.cons.cons =>
    rw [header_of_drop rest]
    dsimp only
    simp only [word, List.getElem?_cons_zero, List.getElem?_cons_succ]
    split
    next => rfl
    next =>
      cases counted : count.toUInt64? with
      | none => rfl
      | some n =>
        have agrees := blocks_agrees room n.toNat (cursor + 4)
        rw [Agrees, Capability.decodeBlocks, ← place] at agrees
        dsimp only
        rw [agrees]
        cases Capability.readBlocks n.toNat _ <;> rfl
  all_goals
    simp only [List.length_cons, List.length_nil] at length_words
    rw [slice?_of_short (by omega)]
    rfl

theorem readRecord_of_record (room : words.length < 2 ^ 58) {length cursor next : Nat}
    {first : Word} {later : List Word} {key : Key} {location : Location} {held : Held}
    (rest : words.drop cursor = first :: later) (named : Key.ofWord first = .ok key)
    (few : length ≤ cursor) (read : record words length cursor = .ok (location, held, next)) :
    Table.readRecord (length + 1) (.ofWords words cursor) =
      .ok (key, location, held, .ofWords words next) ∧ cursor < next := by
  have agrees := record_agrees room rest named few
  rw [read] at agrees
  obtain ⟨⟨key', location', held', d⟩, whole, same⟩ := (map_eq_ok_iff ..).mp (agrees.of_ok rfl)
  cases same
  have passes := (Table.passes_of_readRecord whole).2
  have started := Procedure.encode_pos ⟨key', length + 1, location', held'⟩
  have place := passes.place
  have offset : d.offset = cursor + _ := congrArg Cursor.offset place
  have further : cursor < d.offset := by omega
  rw [← offset] at place
  exact ⟨by rw [whole, ← place], further⟩

-- There are never more records than words before the cursor, so that the index of the next one is a
-- number of 64 bits.
theorem records_agrees (room : words.length < 2 ^ 58) {t : Table} {cursor : Nat}
    (few : t.length ≤ cursor) :
    Agrees (records words t cursor)
      ((Table.readRecords t (.ofWords words cursor)).map fun r => (r.1, r.2.offset)) := by
  have from_here {cursor : Nat} {first : Word} (found : words[cursor]? = some first) :
      words.drop cursor = first :: words.drop (cursor + 1) := by
    obtain ⟨inside, rfl⟩ := List.getElem?_eq_some_iff.mp found
    exact List.drop_eq_getElem_cons inside
  fun_induction records words t cursor with
  | case1 t cursor absent =>
    have rest : words.drop cursor = [] :=
      List.drop_eq_nil_iff.mpr (List.getElem?_eq_none_iff.mp absent)
    rw [Table.readRecords, Cursor.ofWords, rest]
    rfl
  | case2 t cursor first found zero =>
    have inside := (List.getElem?_eq_some_iff.mp found).1
    rw [Table.readRecords, Cursor.ofWords, from_here found, sum_of_lt (by omega)]
    dsimp only
    rw [if_pos zero]
    rfl
  | case3 t cursor first found started e unnamed =>
    rw [Word.isZero_iff_eq_zero] at started
    rw [Table.readRecords_of_start (from_here found) started, Table.readRecord]
    dsimp only [Cursor.ofWords]
    rw [from_here found]
    dsimp only
    rw [unnamed]
    rfl
  | case4 t cursor first found started key named stop unread =>
    rw [Word.isZero_iff_eq_zero] at started
    have agrees := record_agrees room (from_here found) named few
    rw [unread] at agrees
    obtain ⟨e, rfl, same⟩ := agrees.of_error rfl
    rw [Table.readRecords_of_start (from_here found) started, (map_eq_error_iff ..).mp same]
    rfl
  | case5 t cursor first found started key named location held next read e failed =>
    rw [Word.isZero_iff_eq_zero] at started
    have whole := (readRecord_of_record room (from_here found) named few read).1
    rw [Table.readRecords_of_start (from_here found) started, whole]
    dsimp only
    rw [failed]
    rfl
  | case6 t cursor first found started key named location held next read index t' created moves
      ih =>
    rw [Word.isZero_iff_eq_zero] at started
    have whole := (readRecord_of_record room (from_here found) named few read).1
    obtain ⟨-, -, -, -, grown⟩ := (Table.create_eq_ok_iff ..).mp created
    have more : t'.length = t.length + 1 := by simp [grown, Table.length]
    rw [Table.readRecords_of_start (from_here found) started, whole]
    dsimp only
    rw [created]
    exact ih (by omega)
  | case7 t cursor first found started key named location held next read index t' created stalls =>
    exact absurd (readRecord_of_record room (from_here found) named few read).2 stalls

theorem table_agrees (room : words.length < 2 ^ 58) :
    Agrees (table words) (Table.decode words) := by
  have agrees := records_agrees room (Nat.le_refl Table.empty.length)
  rw [Agrees, show Table.empty.length = 0 from rfl] at agrees
  rw [table, agrees, Table.decode]
  cases read : Table.readRecords .empty (.ofWords words 0) with
  | error e => rfl
  | ok r =>
    obtain ⟨t, d, takes, halts⟩ := (Table.readRecords_empty_eq_iff ..).mp read
    cases halts with
    | @ended d' passes =>
      have whole := (Cursor.passes_append_iff ..).mpr ⟨d, takes.passes, passes⟩
      have inside := whole.within (by simp)
      have ended : d'.rest = [] ↔ d'.offset = words.length := by
        rw [whole.place]
        simp only [Cursor.ofWords, List.drop_eq_nil_iff]
        omega
      dsimp only [Except.map, Except.mapError]
      by_cases finished : d'.rest = []
      · rw [if_pos finished, if_pos (ended.mp finished)]
        rfl
      · rw [if_neg finished, if_neg (mt ended.mpr finished)]
        rfl

/-- No access is outside the words, no sum is too large and no loop stays where it is, whatever the
words are and wherever reading starts. The bound on their number is that of memory. -/
theorem reading_is_safe (words : List Word) (room : words.length < 2 ^ 58)
    (offset count : UInt64) :
    (Agrees (block words offset.toNat) (Capability.decodeAt words offset.toNat) ∧
      Agrees (blocks words count.toNat offset.toNat)
        (Capability.decodeBlocks words offset.toNat count.toNat) ∧
      Agrees (list words 0) (Capability.decode words) ∧
      Agrees (table words) (Table.decode words)) ∧
    (∀ c next, Capability.decodeAt words offset.toNat = .ok (c, next) →
      offset.toNat + 2 ≤ next ∧ next ≤ words.length ∧ next = offset.toNat + c.encodedLength) ∧
    (∀ caps next, Capability.decodeBlocks words offset.toNat count.toNat = .ok (caps, next) →
      offset.toNat + 2 * count.toNat ≤ next) ∧
    (words.length - offset.toNat < 2 * count.toNat →
      ∃ e, Capability.decodeBlocks words offset.toNat count.toNat = .error e) := by
  refine ⟨⟨block_agrees room _, blocks_agrees room _ _, list_agrees room 0, table_agrees room⟩,
    ?_, ?_, ?_⟩
  · intro c next read
    obtain ⟨place, wide, inside⟩ := Capability.decodeAt_place read
    exact ⟨wide, inside, place⟩
  · intro caps next read
    exact (Capability.decodeBlocks_place read).1
  · intro many
    cases read : Capability.decodeBlocks words offset.toNat count.toNat with
    | error e => exact ⟨e, rfl⟩
    | ok r =>
      obtain ⟨caps, next⟩ := r
      obtain ⟨far, inside⟩ := Capability.decodeBlocks_place read
      omega

def lone : List Word := [.ofNat 1, .ofNat 6]

theorem reading_is_safe_lone :
    block lone 0 = .ok (.setEntry, 2) ∧
    block lone (2 ^ 64 - 1) = .error (.refused (.truncated (2 ^ 64 - 1))) ∧
    ∃ e, Capability.decodeBlocks lone 0 2 = .error e := by
  have room : lone.length < 2 ^ 58 := by decide
  obtain ⟨⟨first, -⟩, -, -, many⟩ := reading_is_safe lone room 0 2
  obtain ⟨⟨past, -⟩, -⟩ := reading_is_safe lone room (.ofNat (2 ^ 64 - 1)) 0
  exact ⟨first, past, many (by decide)⟩

end Fetch

end RefMonitor
