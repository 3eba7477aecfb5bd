import RefMonitor.Proofs.Block

set_option autoImplicit false

namespace RefMonitor

def Word.Names (w : Word) : Prop := ∃ key : Key, key ≠ .null ∧ w = key.toWord

structure FirstNameless (values : List Word) (number : Nat) : Prop where
  nameless : ∃ w, values[number]? = some w ∧ ¬ w.Names
  before : ∀ w ∈ values.take number, w.Names

/-- The place an error tells of, for a block that starts at a cursor: the start of the block, or the
first of its values that should name a procedure and does not. -/
def WireError.TellsOf (c : Cursor) : WireError → Prop
  | .truncated offset | .zeroLength offset | .unknownType offset | .badArity offset _ _ =>
    offset = c.offset
  | .badKey offset _ => ∃ type values later number,
      c.rest = .ofNat (values.length + 1) :: type :: (values ++ later) ∧
        values.length + 1 < 2 ^ 64 ∧ FirstNameless values number ∧ offset = c.offset + 2 + number

theorem exists_cut {α β : Type} {f : α → List β} {xs : List α} {n : Nat}
    (inside : n < (xs.flatMap f).length) :
    ∃ done x later, xs = done ++ x :: later ∧ (done.flatMap f).length ≤ n ∧
      n < (done.flatMap f).length + (f x).length := by
  induction xs generalizing n with
  | nil => simp at inside
  | cons x xs ih =>
    by_cases first : n < (f x).length
    · exact ⟨[], x, xs, rfl, by simp, by simpa using first⟩
    · rw [List.flatMap_cons, List.length_append] at inside
      obtain ⟨done, y, later, rfl, before, after⟩ := @ih (n - (f x).length) (by omega)
      refine ⟨x :: done, y, later, rfl, ?_, ?_⟩
      all_goals
        rw [List.flatMap_cons, List.length_append]
        omega

theorem take_flatMap {α β : Type} {f : α → List β} {done later : List α} {x : α} {n : Nat}
    (before : (done.flatMap f).length ≤ n) (after : n < (done.flatMap f).length + (f x).length) :
    ((done ++ x :: later).flatMap f).take n =
      done.flatMap f ++ (f x).take (n - (done.flatMap f).length) := by
  rw [List.flatMap_append, List.flatMap_cons, List.take_append, List.take_of_length_le before,
    List.take_append_of_le_length (by omega)]

theorem Cursor.passes_take {words : List Word} {n : Nat} (inside : n ≤ words.length) :
    (ofWords words 0).Passes (words.take n) (ofWords words n) := by
  constructor
  · simp [ofWords]
  · simp [ofWords, inside]

theorem Cursor.Passes.from_start {words front : List Word} {d : Cursor}
    (passes : (ofWords words 0).Passes front d) :
    d = ofWords words front.length ∧ words.take front.length = front := by
  have whole : words = front ++ d.rest := passes.rest
  constructor
  · rw [passes.place, Nat.zero_add]
  · rw [whole, List.take_left]

namespace Capability

def Written (words : List Word) : Prop :=
  ∃ caps : List Capability, (∀ c ∈ caps, c.Valid) ∧ words = encodeAll caps

theorem readable_of_length {caps : List Capability} (fits : (encodeAll caps).length < 2 ^ 64)
    (valid : ∀ c ∈ caps, c.Valid) : ∀ c ∈ caps, c.Readable :=
  fun c member => ⟨valid c member, counted_of_length fits c member⟩

theorem Written.exists_readable {words : List Word} (written : Written words)
    (fits : words.length < 2 ^ 64) :
    ∃ caps : List Capability, (∀ c ∈ caps, c.Readable) ∧ words = encodeAll caps := by
  obtain ⟨caps, valid, rfl⟩ := written
  exact ⟨caps, readable_of_length fits valid, rfl⟩

theorem readKeys_error {offset : Nat} {words : List Word} {e : WireError}
    (h : readKeys offset words = .error e) :
    ∃ number error, FirstNameless words number ∧ e = .badKey (offset + number) error := by
  revert h
  fun_induction readKeys offset words with
  | case1 => exact nofun
  | case2 offset w later error unread =>
    intro h
    cases h
    refine ⟨0, error, ⟨⟨w, rfl, ?_⟩, by simp⟩, rfl⟩
    rintro ⟨key, -, rfl⟩
    rw [Key.ofWord_toWord] at unread
    cases unread
  | case3 offset w later key read null =>
    intro h
    cases h
    refine ⟨0, .empty, ⟨⟨w, rfl, ?_⟩, by simp⟩, rfl⟩
    rintro ⟨other, named, rfl⟩
    rw [Key.ofWord_toWord] at read
    cases read
    exact named (Key.isNull_iff.mp null)
  | case4 offset w later key read named ih =>
    intro h
    obtain ⟨number, error, ⟨nameless, before⟩, rfl⟩ := ih ((map_eq_error_iff ..).mp h)
    have first : w.Names := ⟨key, mt Key.isNull_iff.mpr named, Key.toWord_of_ofWord read⟩
    refine ⟨number + 1, error, ⟨by simpa using nameless, ?_⟩, ?_⟩
    · rw [List.take_succ_cons]
      exact List.forall_mem_cons.mpr ⟨first, before⟩
    · rw [Nat.add_assoc, Nat.add_comm 1]

theorem ofValues_error {offset : Nat} {op : Operation} {words : List Word} {e : WireError}
    (h : ofValues offset op words = .error e) :
    e = .badArity offset op words.length ∨
      ∃ number error, FirstNameless words number ∧ e = .badKey (offset + 2 + number) error := by
  revert h
  fun_cases ofValues offset op words with
  | case1 | case2 | case4 =>
    intro h
    cases h
  | case3 | case8 =>
    intro h
    cases h
    exact .inl rfl
  | case5 | case6 | case7 =>
    intro h
    exact .inr (readKeys_error ((map_eq_error_iff ..).mp h))

theorem readBlock_error {c : Cursor} {e : WireError} (h : readBlock c = .error e) :
    e.TellsOf c := by
  revert h
  fun_cases readBlock c with
  | case1 | case2 | case3 | case4 | case5 =>
    intro h
    cases h
    rfl
  | case6 size body rest n counted enough type values taken op known =>
    intro h
    rcases ofValues_error ((map_eq_error_iff ..).mp h) with rfl | ⟨number, error, first, rfl⟩
    · rfl
    · obtain rfl := (Word.toUInt64?_eq_some_iff ..).mp counted
      have whole : type :: (values ++ body.drop n.toNat) = body :=
        calc type :: (values ++ body.drop n.toNat)
          _ = body.take n.toNat ++ body.drop n.toNat := by rw [taken, List.cons_append]
          _ = body := List.take_append_drop ..
      have count := congrArg List.length taken
      rw [List.length_take, Nat.min_eq_left (Nat.le_of_not_lt enough), List.length_cons] at count
      refine ⟨type, values, body.drop n.toNat, number, ?_, count ▸ n.toNat_lt, first, rfl⟩
      rw [rest, whole, count]

theorem readBlock_of_cut {c : Cursor} {cap : Capability} {n : Nat} (readable : cap.Readable)
    (cut : n < cap.encode.length) (rest : c.rest = cap.encode.take n) :
    readBlock c = .error (.truncated c.offset) := by
  cases n with
  | zero =>
    rw [List.take_zero] at rest
    rw [readBlock, rest]
  | succ n =>
    obtain ⟨count, counted, size⟩ := Option.map_eq_some_iff.mp
      ((Word.map_toUInt64?_eq_some_iff ..).mpr ⟨readable.counted, rfl⟩)
    rw [encode, List.take_succ_cons] at rest
    rw [length_encode, encodedLength] at cut
    have short : ((Word.ofNat cap.operation.wireId :: cap.values).take n).length < count.toNat := by
      rw [List.length_take, size]
      omega
    rw [readBlock, rest]
    simp only [counted, short, if_true]

variable {c d : Cursor} {caps : List Capability}

theorem readAll_of_block {cap : Capability} (readable : cap.Readable)
    (passes : c.Passes cap.encode d) : readAll c = (readAll d).map (cap :: ·) := by
  have more : c.rest ≠ [] := by
    rw [passes.rest]
    simp [encode]
  have read := (readBlock_eq_ok_iff ..).mpr ⟨readable, passes⟩
  rw [readAll, if_neg more]
  split
  next e unread =>
    rw [read] at unread
    cases unread
  next again =>
    rw [read] at again
    cases again
    rfl

theorem readAll_of_passes (readable : ∀ cap ∈ caps, cap.Readable)
    (passes : c.Passes (encodeAll caps) d) : readAll c = (readAll d).map (caps ++ ·) := by
  induction caps generalizing c with
  | nil =>
    rw [(Cursor.passes_nil_iff ..).mp passes]
    cases readAll c <;> rfl
  | cons cap caps ih =>
    obtain ⟨middle, first, later⟩ := (Cursor.passes_append_iff ..).mp passes
    rw [List.forall_mem_cons] at readable
    rw [readAll_of_block readable.1 first, ih readable.2 later]
    cases readAll d <;> rfl

theorem readAll_of_unread {e : WireError} (more : c.rest ≠ []) (unread : readBlock c = .error e) :
    readAll c = .error e := by
  rw [readAll, if_neg more]
  split
  next again =>
    rw [unread] at again
    cases again
    rfl
  next read =>
    rw [unread] at read
    cases read

theorem exists_fault {e : WireError} (h : readAll c = .error e) :
    ∃ caps d, (∀ cap ∈ caps, cap.Readable) ∧ c.Passes (encodeAll caps) d ∧
      readBlock d = .error e := by
  revert h
  fun_induction readAll c with
  | case1 =>
    intro h
    cases h
  | case2 c more fault unread =>
    intro h
    cases h
    exact ⟨[], c, by simp, (Cursor.passes_nil_iff ..).mpr rfl, unread⟩
  | case3 c more cap next read ih =>
    intro h
    obtain ⟨caps, d, readable, passes, unread⟩ := ih ((map_eq_error_iff ..).mp h)
    obtain ⟨first, block⟩ := (readBlock_eq_ok_iff ..).mp read
    exact ⟨cap :: caps, d, List.forall_mem_cons.mpr ⟨first, readable⟩,
      (Cursor.passes_append_iff ..).mpr ⟨next, block, passes⟩, unread⟩

-- There is one such place: a block cannot be read and not be read.
theorem fault_unique {others : List Capability} {other : Cursor} {e e' : WireError}
    (readable : ∀ cap ∈ caps, cap.Readable) (passes : c.Passes (encodeAll caps) d)
    (unread : readBlock d = .error e) (readable' : ∀ cap ∈ others, cap.Readable)
    (passes' : c.Passes (encodeAll others) other) (unread' : readBlock other = .error e') :
    other = d := by
  induction caps generalizing c others with
  | nil =>
    obtain rfl := (Cursor.passes_nil_iff ..).mp passes
    cases others with
    | nil => exact (Cursor.passes_nil_iff ..).mp passes'
    | cons cap others =>
      obtain ⟨middle, first, -⟩ := (Cursor.passes_append_iff ..).mp passes'
      rw [readBlock_of_passes (readable' cap List.mem_cons_self) first] at unread
      cases unread
  | cons cap caps ih =>
    rw [List.forall_mem_cons] at readable
    obtain ⟨middle, first, later⟩ := (Cursor.passes_append_iff ..).mp passes
    have read := readBlock_of_passes readable.1 first
    cases others with
    | nil =>
      obtain rfl := (Cursor.passes_nil_iff ..).mp passes'
      rw [read] at unread'
      cases unread'
    | cons cap' others =>
      rw [List.forall_mem_cons] at readable'
      obtain ⟨middle', first', later'⟩ := (Cursor.passes_append_iff ..).mp passes'
      have again := readBlock_of_passes readable'.1 first'
      rw [read] at again
      cases again
      exact ih readable.2 later readable'.2 later'

theorem decodeAt_eq_error_iff (words : List Word) (offset : Nat) (e : WireError) :
    decodeAt words offset = .error e ↔ readBlock (.ofWords words offset) = .error e :=
  map_eq_error_iff ..

structure FailsAt (words : List Word) (e : WireError) (offset : Nat) : Prop where
  written : Written (words.take offset)
  unread : decodeAt words offset = .error e
  told : e.TellsOf (.ofWords words offset)
  only : ∀ other e', Written (words.take other) → decodeAt words other = .error e' → other = offset

theorem exists_failsAt {words : List Word} {e : WireError} (fits : words.length < 2 ^ 64)
    (h : decode words = .error e) : ∃ offset, FailsAt words e offset := by
  obtain ⟨caps, d, readable, passes, unread⟩ := exists_fault h
  obtain ⟨rfl, front⟩ := passes.from_start
  refine ⟨(encodeAll caps).length, ⟨caps, fun c member => (readable c member).valid, front⟩,
    (decodeAt_eq_error_iff ..).mpr unread, readBlock_error unread, ?_⟩
  intro other e' written fails
  have counted : (words.take other).length < 2 ^ 64 := by
    rw [List.length_take]
    omega
  obtain ⟨others, readable', before⟩ := written.exists_readable counted
  have inside : other ≤ words.length := by
    -- Otherwise all the words would be read.
    apply Nat.le_of_not_lt
    intro outside
    rw [List.take_of_length_le (Nat.le_of_lt outside)] at before
    rw [(decode_eq_ok_iff words others).mpr ⟨readable', before⟩] at h
    cases h
  have passes' := Cursor.passes_take inside
  rw [before] at passes'
  have same := fault_unique readable passes unread readable' passes'
    ((decodeAt_eq_error_iff ..).mp fails)
  exact congrArg Cursor.offset same

theorem decode_of_cut {done later : List Capability} {cap : Capability} {n : Nat}
    (fits : (encodeAll (done ++ cap :: later)).length < 2 ^ 64)
    (valid : ∀ c ∈ done ++ cap :: later, c.Valid) (before : (encodeAll done).length ≤ n)
    (after : n < (encodeAll done).length + cap.encode.length) :
    decode ((encodeAll (done ++ cap :: later)).take n) =
      if n = (encodeAll done).length then .ok done
      else .error (.truncated (encodeAll done).length) := by
  have readable := readable_of_length fits valid
  have readable_done : ∀ c ∈ done, c.Readable :=
    fun c member => readable c (List.mem_append_left _ member)
  have parts : (encodeAll (done ++ cap :: later)).take n =
      encodeAll done ++ cap.encode.take (n - (encodeAll done).length) :=
    take_flatMap before after
  rw [parts]
  split
  next boundary =>
    rw [boundary, Nat.sub_self, List.take_zero, List.append_nil]
    exact (decode_eq_ok_iff ..).mpr ⟨readable_done, rfl⟩
  next inside =>
    rw [decode, readAll_of_passes readable_done (Cursor.passes_ofWords ..), map_eq_error_iff]
    apply readAll_of_unread
    · have started : n - (encodeAll done).length ≠ 0 := by omega
      simp [encode, started]
    · exact readBlock_of_cut (readable cap (by simp)) (by omega) rfl

/-- In particular an encoding that is cut short is read up to the last boundary of blocks before the
cut. -/
theorem first_fault_decides (words : List Word) (fits : words.length < 2 ^ 64) :
    (∀ e, decode words = .error e → ∃ offset, FailsAt words e offset) ∧
    ∀ caps : List Capability, (∀ c ∈ caps, c.Valid) → words = encodeAll caps →
      ∀ n < words.length, ∃ done cap later, caps = done ++ cap :: later ∧
        (encodeAll done).length ≤ n ∧ n < (encodeAll done).length + cap.encodedLength ∧
        decode (words.take n) = if n = (encodeAll done).length then .ok done
          else .error (.truncated (encodeAll done).length) := by
  refine ⟨fun e => exists_failsAt fits, ?_⟩
  rintro caps valid rfl n inside
  obtain ⟨done, cap, later, rfl, before, after⟩ := exists_cut inside
  have here := decode_of_cut fits valid before after
  rw [length_encode] at after
  exact ⟨done, cap, later, rfl, before, after, here⟩

def nameless : List Word :=
  [.ofNat 1, .ofNat 6, .ofNat 3, .ofNat 3, envoy.toWord, .zero]

theorem first_fault_decides_nameless :
    decode nameless = .error (.badKey 5 .empty) ∧ FailsAt nameless (.badKey 5 .empty) 2 ∧
    decode ((encodeAll mixed).take 5) = .error (.truncated 4) := by
  have first : Capability.setEntry.Readable := ⟨by decide, by decide⟩
  have passes : (Cursor.ofWords nameless 0).Passes Capability.setEntry.encode
      (.ofWords nameless 2) := ⟨by decide, by decide⟩
  have unread : readBlock (.ofWords nameless 2) = .error (.badKey 5 .empty) := rfl
  have fails : decode nameless = .error (.badKey 5 .empty) := by
    rw [decode, readAll_of_block first passes, readAll_of_unread (by decide) unread]
    rfl
  obtain ⟨offset, failsAt⟩ := (first_fault_decides nameless (by decide)).1 _ fails
  have place : 2 = offset := failsAt.only 2 _ ⟨[.setEntry], by decide, by decide⟩
    ((decodeAt_eq_error_iff ..).mpr unread)
  subst place
  refine ⟨fails, failsAt, ?_⟩
  obtain ⟨done, cap, later, parts, before, after, cut⟩ :=
    (first_fault_decides (encodeAll mixed) (by decide)).2 mixed (by decide) rfl 5 (by decide)
  -- The cut is inside the second block.
  rcases done with _ | ⟨head, _ | ⟨next, done⟩⟩
  · cases parts
    have short : ¬ 5 < 0 + encodedLength (.write .zero (.ofNat 9)) := by decide
    exact absurd after short
  · cases parts
    exact cut
  · simp only [mixed, List.cons_append, List.cons.injEq] at parts
    obtain ⟨rfl, rfl, -⟩ := parts
    rw [encodeAll_cons, encodeAll_cons, List.length_append, List.length_append, length_encode,
      length_encode] at before
    have long : encodedLength (.write .zero (.ofNat 9)) + encodedLength .setEntry = 6 := rfl
    omega

end Capability

end RefMonitor
