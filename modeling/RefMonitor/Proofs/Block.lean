import Mathlib.Algebra.GroupWithZero.Nat
import RefMonitor.Capability.Wire
import RefMonitor.Proofs.KeyWord
import RefMonitor.Proofs.WordNumber

set_option autoImplicit false

namespace RefMonitor

theorem map_eq_ok_iff {ε α β : Type} (f : α → β) (x : Except ε α) (b : β) :
    x.map f = .ok b ↔ ∃ a, x = .ok a ∧ f a = b := by
  cases x <;> simp [Except.map]

theorem map_eq_error_iff {ε α β : Type} (f : α → β) (x : Except ε α) (e : ε) :
    x.map f = .error e ↔ x = .error e := by
  cases x <;> simp [Except.map]

theorem sublist_flatMap_of_mem {α β : Type} {f : α → List β} {xs : List α} {x : α}
    (member : x ∈ xs) : (f x).Sublist (xs.flatMap f) := by
  rw [List.flatMap_def]
  exact List.sublist_flatten_of_mem (List.mem_map_of_mem member)

theorem length_le_flatMap {α β : Type} {f : α → List β} (nonempty : ∀ x, 1 ≤ (f x).length)
    (xs : List α) : xs.length ≤ (xs.flatMap f).length := by
  induction xs with
  | nil => simp
  | cons x xs ih =>
    have first := nonempty x
    rw [List.flatMap_cons, List.length_append, List.length_cons]
    omega

namespace Capability

structure Readable (c : Capability) : Prop where
  valid : c.Valid
  counted : c.values.length + 1 < 2 ^ 64

theorem readKeys_eq_ok_iff (offset : Nat) (words : List Word) (keys : List Key) :
    readKeys offset words = .ok keys ↔ Key.null ∉ keys ∧ keys.map Key.toWord = words := by
  induction words generalizing offset keys with
  | nil => cases keys <;> simp [readKeys]
  | cons w words ih =>
    rw [List.map_eq_cons_iff]
    unfold readKeys
    split
    next e unread =>
      have unwritten : ∀ k : Key, k.toWord ≠ w := by
        rintro k rfl
        rw [Key.ofWord_toWord] at unread
        cases unread
      simp [unwritten]
    next k read =>
      obtain rfl := Key.toWord_of_ofWord read
      simp only [Key.toWord_inj, Key.isNull_iff]
      split
      next null => grind
      next named =>
        rw [map_eq_ok_iff]
        simp only [ih]
        grind

theorem eq_of_values {a b : Capability} (operation : a.operation = b.operation)
    (values : a.values = b.values) : a = b := by
  have keys {xs ys : List Key} : xs.map Key.toWord = ys.map Key.toWord ↔ xs = ys :=
    List.map_inj_right fun _ _ => Key.toWord_inj.mp
  -- Of different operations the first equation is absurd, of one operation the second decides.
  cases a <;> cases b <;> first
    | cases operation; done
    | simp_all [Capability.values]

theorem ofValues_values (offset : Nat) {c : Capability} (valid : c.Valid) :
    ofValues offset c.operation c.values = .ok c := by
  have scope {keys : List Key} (named : Key.null ∉ keys) :
      readKeys (offset + 2) (keys.map Key.toWord) = .ok keys :=
    (readKeys_eq_ok_iff ..).mpr ⟨named, rfl⟩
  cases c with
  | write | setEntry => rfl
  | log topics => simp_all [ofValues, operation, values, Valid, fault?]
  | call keys | delete keys | register keys =>
    simp_all [ofValues, operation, values, Valid, fault?, Key.isNull_iff, Except.map]

theorem values_of_ofValues {offset : Nat} {op : Operation} {words : List Word} {c : Capability}
    (h : ofValues offset op words = .ok c) : c.Valid ∧ c.operation = op ∧ c.values = words := by
  revert h
  fun_cases ofValues offset op words with
  | case1 | case4 =>
    intro h
    cases h
    exact ⟨rfl, rfl, rfl⟩
  | case2 topics few =>
    intro h
    cases h
    exact ⟨by simpa [Valid, fault?] using few, rfl, rfl⟩
  | case3 | case8 => rintro ⟨⟩
  | case5 | case6 | case7 =>
    intro h
    simp only [map_eq_ok_iff, readKeys_eq_ok_iff] at h
    obtain ⟨keys, ⟨named, rfl⟩, rfl⟩ := h
    exact ⟨by simpa [Valid, fault?, Key.isNull_iff] using named, rfl, rfl⟩

theorem ofWireId?_eq_some_iff (type : Word) (op : Operation) :
    (type.toUInt64?.bind fun id => Operation.ofWireId? id.toNat) = some op ↔
      type = .ofNat op.wireId := by
  simp only [Option.bind_eq_some_iff, Word.toUInt64?_eq_some_iff]
  constructor
  · rintro ⟨id, rfl, known⟩
    rw [Operation.wireId_eq_of_ofWireId? known]
  · rintro rfl
    have small : (UInt64.ofNat op.wireId).toNat = op.wireId := by cases op <;> rfl
    exact ⟨UInt64.ofNat op.wireId, by rw [small], by rw [small, Operation.ofWireId?_wireId]⟩

theorem passes_block {c : Cursor} {body : List Word} {count : Nat} {cap : Capability}
    (rest : c.rest = .ofNat count :: body)
    (taken : body.take count = .ofNat cap.operation.wireId :: cap.values)
    (enough : count ≤ body.length) :
    count = cap.values.length + 1 ∧ c.Passes cap.encode (c.skip (count + 1)) := by
  have length := congrArg List.length taken
  rw [List.length_take, Nat.min_eq_left enough, List.length_cons] at length
  have whole : c.rest = cap.encode ++ body.drop count := by
    rw [rest, encode, ← length, List.cons_append, ← taken, List.take_append_drop]
  have size : cap.encode.length = count + 1 := by simp [encode, length]
  exact ⟨length, size ▸ Cursor.passes_skip whole⟩

theorem passes_of_readBlock {c next : Cursor} {cap : Capability}
    (h : readBlock c = .ok (cap, next)) : cap.Readable ∧ c.Passes cap.encode next := by
  revert h
  fun_cases readBlock c with
  | case1 | case2 | case3 | case4 | case5 => rintro ⟨⟩
  | case6 size body rest n counted enough type words taken op known =>
    intro h
    obtain ⟨read, value, same⟩ := (map_eq_ok_iff ..).mp h
    cases same
    obtain ⟨valid, rfl, rfl⟩ := values_of_ofValues value
    obtain rfl := (Word.toUInt64?_eq_some_iff ..).mp counted
    obtain rfl := (ofWireId?_eq_some_iff ..).mp known
    obtain ⟨length, passes⟩ := passes_block rest taken (Nat.le_of_not_lt enough)
    exact ⟨⟨valid, length ▸ n.toNat_lt⟩, passes⟩

theorem readBlock_of_passes {c next : Cursor} {cap : Capability} (readable : cap.Readable)
    (passes : c.Passes cap.encode next) : readBlock c = .ok (cap, next) := by
  obtain ⟨n, counted, size⟩ := Option.map_eq_some_iff.mp
    ((Word.map_toUInt64?_eq_some_iff ..).mpr ⟨readable.counted, rfl⟩)
  have rest : c.rest = .ofNat (cap.values.length + 1) ::
      (.ofNat cap.operation.wireId :: cap.values ++ next.rest) := passes.rest
  have enough : ¬ (.ofNat cap.operation.wireId :: cap.values ++ next.rest).length < n.toNat := by
    simp [size]
  have taken : (.ofNat cap.operation.wireId :: cap.values ++ next.rest).take n.toNat =
      .ofNat cap.operation.wireId :: cap.values := List.take_left' (by simp [size])
  have known := (ofWireId?_eq_some_iff _ cap.operation).mpr rfl
  have value := ofValues_values c.offset readable.valid
  have finish : c.skip (n.toNat + 1) = next := by
    rw [passes.eq_skip, length_encode, encodedLength, size, Nat.add_comm 2]
  unfold readBlock
  rw [rest]
  simp only [counted, enough, taken, known, value, finish, if_false, Except.map]

theorem readBlock_eq_ok_iff (c next : Cursor) (cap : Capability) :
    readBlock c = .ok (cap, next) ↔ cap.Readable ∧ c.Passes cap.encode next :=
  ⟨passes_of_readBlock, fun ⟨readable, passes⟩ => readBlock_of_passes readable passes⟩

theorem readBlocks_eq_ok_iff (count : Nat) (c next : Cursor) (caps : List Capability) :
    readBlocks count c = .ok (caps, next) ↔
      caps.length = count ∧ (∀ cap ∈ caps, cap.Readable) ∧ c.Passes (encodeAll caps) next := by
  induction count generalizing c caps with
  | zero =>
    rw [readBlocks, List.length_eq_zero_iff]
    constructor
    · intro h
      cases h
      exact ⟨rfl, by simp, (Cursor.passes_nil_iff ..).mpr rfl⟩
    · rintro ⟨rfl, -, passes⟩
      rw [(Cursor.passes_nil_iff ..).mp passes]
  | succ count ih =>
    constructor
    · intro h
      rw [readBlocks] at h
      split at h
      next => cases h
      next cap middle read =>
        obtain ⟨⟨caps, last⟩, more, same⟩ := (map_eq_ok_iff ..).mp h
        cases same
        obtain ⟨readable, first⟩ := (readBlock_eq_ok_iff ..).mp read
        obtain ⟨rfl, others, rest⟩ := (ih ..).mp more
        exact ⟨rfl, List.forall_mem_cons.mpr ⟨readable, others⟩,
          (Cursor.passes_append_iff ..).mpr ⟨middle, first, rest⟩⟩
    · rintro ⟨length, readable, passes⟩
      cases caps with
      | nil => cases length
      | cons cap caps =>
        obtain ⟨middle, first, rest⟩ := (Cursor.passes_append_iff ..).mp passes
        rw [List.forall_mem_cons] at readable
        have more := (ih middle caps).mpr ⟨Nat.succ.inj length, readable.2, rest⟩
        have read := (readBlock_eq_ok_iff ..).mpr ⟨readable.1, first⟩
        rw [readBlocks, read]
        simp only [more, Except.map]

theorem encode_pos (c : Capability) : 1 ≤ c.encode.length := by
  simp [encode]

theorem encodeAll_eq_nil_iff (caps : List Capability) : encodeAll caps = [] ↔ caps = [] := by
  cases caps <;> simp [encode]

theorem readAll_eq_ok_iff (c : Cursor) (caps : List Capability) :
    readAll c = .ok caps ↔ (∀ cap ∈ caps, cap.Readable) ∧ c.rest = encodeAll caps := by
  fun_induction readAll c generalizing caps with
  | case1 c ended =>
    rw [ended, Except.ok.injEq, eq_comm, eq_comm (a := []), encodeAll_eq_nil_iff]
    constructor
    · rintro rfl
      exact ⟨by simp, rfl⟩
    · exact And.right
  | case2 c more e unread =>
    simp only [reduceCtorEq, false_iff]
    rintro ⟨readable, rest⟩
    cases caps with
    | nil => exact more rest
    | cons cap caps =>
      have read := (readBlock_eq_ok_iff ..).mpr
        ⟨readable cap List.mem_cons_self, Cursor.passes_skip rest⟩
      rw [read] at unread
      cases unread
  | case3 c more cap next read ih =>
    obtain ⟨readable, passes⟩ := (readBlock_eq_ok_iff ..).mp read
    rw [map_eq_ok_iff]
    constructor
    · rintro ⟨others, others_read, rfl⟩
      obtain ⟨all, rest⟩ := (ih others).mp others_read
      exact ⟨List.forall_mem_cons.mpr ⟨readable, all⟩, by rw [passes.rest, rest, encodeAll_cons]⟩
    · rintro ⟨all, rest⟩
      cases caps with
      | nil => exact absurd rest more
      | cons first others =>
        rw [List.forall_mem_cons] at all
        have again := (readBlock_eq_ok_iff ..).mpr ⟨all.1, Cursor.passes_skip rest⟩
        rw [read] at again
        cases again
        exact ⟨others, (ih others).mpr ⟨all.2, by simp [Cursor.skip, rest]⟩, rfl⟩

theorem decode_eq_ok_iff (words : List Word) (caps : List Capability) :
    decode words = .ok caps ↔ (∀ cap ∈ caps, cap.Readable) ∧ words = encodeAll caps :=
  readAll_eq_ok_iff ..

-- A block shows where it ends, so blocks are told apart whatever follows them.
theorem encode_append_inj {a b : Capability} {xs ys : List Word}
    (left : a.values.length + 1 < 2 ^ 64) (right : b.values.length + 1 < 2 ^ 64)
    (same : a.encode ++ xs = b.encode ++ ys) : a = b ∧ xs = ys := by
  simp only [encode, List.cons_append, List.cons.injEq] at same
  obtain ⟨counts, types, rest⟩ := same
  have length : a.values.length = b.values.length := by
    rw [Word.ofNat_inj (by omega) (by omega)] at counts
    omega
  have operation : a.operation = b.operation := by
    have known := (ofWireId?_eq_some_iff _ a.operation).mpr rfl
    rw [types, (ofWireId?_eq_some_iff _ b.operation).mpr rfl] at known
    exact (Option.some.inj known).symm
  obtain ⟨values, tails⟩ := List.append_inj rest length
  exact ⟨eq_of_values operation values, tails⟩

theorem encodeAll_inj {as bs : List Capability} (left : ∀ a ∈ as, a.values.length + 1 < 2 ^ 64)
    (right : ∀ b ∈ bs, b.values.length + 1 < 2 ^ 64) (same : encodeAll as = encodeAll bs) :
    as = bs := by
  induction as generalizing bs with
  | nil => exact ((encodeAll_eq_nil_iff bs).mp same.symm).symm
  | cons a as ih =>
    cases bs with
    | nil => exact (encodeAll_eq_nil_iff _).mp same
    | cons b bs =>
      rw [List.forall_mem_cons] at left right
      obtain ⟨rfl, tails⟩ := encode_append_inj left.1 right.1 same
      rw [ih left.2 right.2 tails]

theorem length_encodeAll (caps : List Capability) :
    (encodeAll caps).length = (caps.map encodedLength).sum := by
  rw [encodeAll, List.length_flatMap]
  simp only [length_encode]

theorem counted_of_length {caps : List Capability} (fits : (encodeAll caps).length < 2 ^ 64) :
    ∀ c ∈ caps, c.values.length + 1 < 2 ^ 64 := by
  intro c member
  have part : c.encode.length ≤ (encodeAll caps).length :=
    (sublist_flatMap_of_mem member).length_le
  rw [length_encode, encodedLength] at part
  omega

theorem decode_encodeAll_eq_ok_iff {caps : List Capability}
    (fits : (encodeAll caps).length < 2 ^ 64) (read : List Capability) :
    decode (encodeAll caps) = .ok read ↔ read = caps ∧ ∀ c ∈ caps, c.Valid := by
  have counted := counted_of_length fits
  rw [decode_eq_ok_iff]
  constructor
  · rintro ⟨readable, same⟩
    obtain rfl := encodeAll_inj (fun c member => (readable c member).counted) counted same.symm
    exact ⟨rfl, fun c member => (readable c member).valid⟩
  · rintro ⟨rfl, valid⟩
    exact ⟨fun c member => ⟨valid c member, counted c member⟩, rfl⟩

/-- The bound on the number of words is that of memory. -/
theorem list_round_trips_iff (caps : List Capability) :
    (encodeAll caps).length = (caps.map encodedLength).sum ∧
    ((encodeAll caps).length < 2 ^ 64 →
      (decode (encodeAll caps) = .ok caps ↔ ∀ c ∈ caps, c.Valid) ∧
      ((∃ c ∈ caps, ¬ c.Valid) → ∃ e, decode (encodeAll caps) = .error e)) := by
  refine ⟨length_encodeAll caps, fun fits => ⟨?_, ?_⟩⟩
  · rw [decode_encodeAll_eq_ok_iff fits]
    exact and_iff_right rfl
  · rintro ⟨c, member, invalid⟩
    cases h : decode (encodeAll caps) with
    | error e => exact ⟨e, rfl⟩
    | ok read => exact absurd (((decode_encodeAll_eq_ok_iff fits read).mp h).2 c member) invalid

def envoy : Key := ⟨[101, 110, 118, 111, 121], by simp, by simp⟩

def mixed : List Capability :=
  [.write .zero (.ofNat 9), .setEntry, .log [.zero, .ofNat 1, .zero], .call [envoy]]

theorem list_round_trips_iff_mixed :
    decode (encodeAll mixed) = .ok mixed ∧
    ∃ e, decode (encodeAll (mixed ++ [.delete [envoy, .null]])) = .error e := by
  have fits : (encodeAll mixed).length < 2 ^ 64 := by decide
  have longer : (encodeAll (mixed ++ [.delete [envoy, .null]])).length < 2 ^ 64 := by decide
  exact ⟨((list_round_trips_iff mixed).2 fits).1.mpr (by decide),
    ((list_round_trips_iff _).2 longer).2 ⟨.delete [envoy, .null], by simp, by decide⟩⟩

theorem decoded_is_canonical {words : List Word} {caps : List Capability}
    (h : decode words = .ok caps) :
    (∀ c ∈ caps, c.Valid) ∧ encodeAll caps = words ∧
      ∀ other, decode other = .ok caps → other = words := by
  obtain ⟨readable, rfl⟩ := (decode_eq_ok_iff ..).mp h
  refine ⟨fun c member => (readable c member).valid, rfl, ?_⟩
  intro other again
  exact ((decode_eq_ok_iff ..).mp again).2

theorem decoded_is_canonical_two_blocks :
    decode [.ofNat 1, .ofNat 6, .ofNat 2, .ofNat 3, envoy.toWord] = .ok [.setEntry, .call [envoy]] ∧
    ∀ other, decode other = .ok [.setEntry, .call [envoy]] →
      other = [.ofNat 1, .ofNat 6, .ofNat 2, .ofNat 3, envoy.toWord] := by
  have read : decode [.ofNat 1, .ofNat 6, .ofNat 2, .ofNat 3, envoy.toWord] =
      .ok [.setEntry, .call [envoy]] := by
    refine (decode_eq_ok_iff ..).mpr ⟨?_, rfl⟩
    simp only [List.forall_mem_cons]
    exact ⟨⟨by decide, by decide⟩, ⟨by decide, by decide⟩, by simp⟩
  exact ⟨read, (decoded_is_canonical read).2.2⟩

theorem decodeBlocks_eq_ok_iff (words : List Word) (offset count next : Nat)
    (caps : List Capability) :
    decodeBlocks words offset count = .ok (caps, next) ↔
      caps.length = count ∧ (∀ cap ∈ caps, cap.Readable) ∧ encodeAll caps <+: words.drop offset ∧
        next = offset + (encodeAll caps).length := by
  simp only [decodeBlocks, map_eq_ok_iff, Prod.exists, Prod.mk.injEq, readBlocks_eq_ok_iff]
  constructor
  · rintro ⟨_, d, ⟨length, readable, passes⟩, rfl, rfl⟩
    exact ⟨length, readable, ⟨d.rest, passes.rest.symm⟩, passes.offset⟩
  · rintro ⟨length, readable, ⟨later, rest⟩, rfl⟩
    have passes := Cursor.passes_skip (c := .ofWords words offset) rest.symm
    exact ⟨caps, _, ⟨length, readable, passes⟩, rfl, rfl⟩

theorem counted_reading_agrees (caps : List Capability) :
    (∀ words, decode words = .ok caps ↔
      decodeBlocks words 0 caps.length = .ok (caps, words.length)) ∧
    ((encodeAll caps).length < 2 ^ 64 → (∀ c ∈ caps, c.Valid) → ∀ before after,
      decodeBlocks (before ++ encodeAll caps ++ after) before.length caps.length =
        .ok (caps, before.length + (encodeAll caps).length)) := by
  constructor
  · intro words
    rw [decode_eq_ok_iff, decodeBlocks_eq_ok_iff, List.drop_zero, Nat.zero_add]
    constructor
    · rintro ⟨readable, rfl⟩
      exact ⟨rfl, readable, List.prefix_refl _, rfl⟩
    · rintro ⟨-, readable, start, length⟩
      exact ⟨readable, (start.eq_of_length length.symm).symm⟩
  · intro fits valid before after
    have counted := counted_of_length fits
    rw [decodeBlocks_eq_ok_iff, List.append_assoc, List.drop_left]
    exact ⟨rfl, fun c member => ⟨valid c member, counted c member⟩, List.prefix_append .., rfl⟩

-- Between a word that promises more words than there are and the block of another list.
theorem counted_reading_agrees_enclosed :
    decodeBlocks ([.max] ++ encodeAll mixed ++ [.ofNat 1, .ofNat 6]) 1 4 =
      .ok (mixed, 1 + (encodeAll mixed).length) :=
  (counted_reading_agrees mixed).2 (by decide) (by decide) [.max] [.ofNat 1, .ofNat 6]

end Capability

end RefMonitor
