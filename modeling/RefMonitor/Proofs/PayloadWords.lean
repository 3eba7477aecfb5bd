import Mathlib.Logic.ExistsUnique
import RefMonitor.Fetch

set_option autoImplicit false

namespace RefMonitor

theorem Word.ofBytes?_bytes (w : Word) : ofBytes? w.bytes = some w := dif_pos w.length_bytes

theorem Word.ofBytes?_eq_none {bytes : List UInt8} (other : bytes.length ≠ 32) :
    ofBytes? bytes = none := dif_neg other

namespace Payload

theorem ofWords_cons (w : Word) (words : List Word) :
    ofWords (w :: words) = w.bytes ++ ofWords words := rfl

-- Reading skips the words before the one that is asked for, and the bytes that make up no word are
-- too few to be read as one.
theorem word?_ofWords_append {tail : Bytes} (short : tail.length < 32) (words : List Word)
    (index : Nat) :
    word? (ofWords words ++ tail) index =
      match words[index]? with
      | some w => .ok w
      | none => .error .badPayload := by
  induction words generalizing index with
  | nil =>
    have few : ((tail.drop (32 * index)).take 32).length ≠ 32 := by
      rw [List.length_take, List.length_drop]
      omega
    simp [word?, ofWords, Word.ofBytes?_eq_none few]
  | cons w words ih =>
    rw [ofWords_cons, List.append_assoc, word?]
    cases index with
    | zero => simp [List.take_left' w.length_bytes, Word.ofBytes?_bytes]
    | succ index =>
      have past : (w.bytes ++ (ofWords words ++ tail)).drop (32 * (index + 1)) =
          (ofWords words ++ tail).drop (32 * index) := by
        rw [Nat.mul_succ, Nat.add_comm, ← List.drop_drop, List.drop_left' w.length_bytes]
      rw [past]
      exact ih index

theorem exists_parts (payload : Bytes) :
    ∃ words tail, tail.length < 32 ∧ ofWords words ++ tail = payload := by
  by_cases short : payload.length < 32
  · exact ⟨[], payload, short, rfl⟩
  · obtain ⟨words, tail, few, rest⟩ := exists_parts (payload.drop 32)
    have width : (payload.take 32).length = 32 := List.length_take_of_le (by omega)
    refine ⟨⟨payload.take 32, width⟩ :: words, tail, few, ?_⟩
    rw [ofWords_cons, List.append_assoc, rest, List.take_append_drop]
termination_by payload.length
decreasing_by
  rw [List.length_drop]
  omega

theorem parts_unique {words others : List Word} {tail rest : Bytes} (short : tail.length < 32)
    (few : rest.length < 32) (same : ofWords words ++ tail = ofWords others ++ rest) :
    words = others ∧ tail = rest := by
  have equal : words = others := by
    apply List.ext_getElem?
    intro index
    have read := word?_ofWords_append short words index
    rw [same, word?_ofWords_append few others index] at read
    cases left : words[index]? <;> cases right : others[index]? <;> simp_all
  subst equal
  exact ⟨rfl, List.append_cancel_left same⟩

-- A product or a sum that is too large belongs to an argument past the end of the payload.
theorem bytes?_bounds? {payload : Bytes} (sized : payload.length < 2 ^ 64) (index : Nat) :
    ((Fetch.bounds? index).bind fun (start, stop) => Fetch.bytes? payload start stop) =
      if 32 * index + 32 ≤ payload.length then some ((payload.drop (32 * index)).take 32)
      else none := by
  rw [Nat.mul_comm]
  by_cases inside : index * 32 + 32 ≤ payload.length
  · have product : index * 32 < 2 ^ 64 := by omega
    have sum : index * 32 + 32 < 2 ^ 64 := by omega
    simp only [Fetch.bounds?, Fetch.product?, Fetch.sum?, Fetch.bytes?, if_pos product, if_pos sum,
      if_pos inside, Option.bind_some, Option.map_some, Nat.le_add_right, true_and]
    rw [List.drop_take, Nat.add_sub_cancel_left]
  · simp only [Fetch.bounds?, Fetch.product?, Fetch.sum?, Fetch.bytes?, inside, if_false]
    grind

theorem argument_eq {payload : Bytes} (sized : payload.length < 2 ^ 64) (index : Nat) :
    Fetch.argument payload index = (word? payload index).mapError .refused := by
  rw [Fetch.argument, bytes?_bounds? sized, word?]
  have length : ((payload.drop (32 * index)).take 32).length =
      min 32 (payload.length - 32 * index) := by rw [List.length_take, List.length_drop]
  by_cases inside : 32 * index + 32 ≤ payload.length
  · have width : ((payload.drop (32 * index)).take 32).length = 32 := by omega
    simp only [if_pos inside, Word.ofBytes?, dif_pos width]
    rfl
  · have other : ((payload.drop (32 * index)).take 32).length ≠ 32 := by omega
    simp only [if_neg inside, Word.ofBytes?_eq_none other]
    rfl

/-- With positions of 64 bits no number is taken for a smaller one. -/
theorem arguments_are_words :
    (∀ words tail, tail.length < 32 → ∀ index,
      (∀ inside : index < words.length,
        word? (ofWords words ++ tail) index = .ok words[index]) ∧
      (words.length ≤ index → word? (ofWords words ++ tail) index = .error .badPayload)) ∧
    (∀ payload, ∃! parts : List Word × Bytes,
      parts.2.length < 32 ∧ ofWords parts.1 ++ parts.2 = payload) ∧
    ∀ payload index, payload.length < 2 ^ 64 →
      Fetch.argument payload index = (word? payload index).mapError .refused := by
  refine ⟨?_, ?_, fun payload index sized => argument_eq sized index⟩
  · intro words tail short index
    rw [word?_ofWords_append short]
    constructor
    · intro inside
      rw [List.getElem?_eq_getElem inside]
    · intro beyond
      rw [List.getElem?_eq_none beyond]
  · intro payload
    obtain ⟨words, tail, short, whole⟩ := exists_parts payload
    refine ⟨(words, tail), ⟨short, whole⟩, ?_⟩
    rintro ⟨others, rest⟩ ⟨few, same⟩
    obtain ⟨rfl, rfl⟩ := parts_unique few short (same.trans whole.symm)
    rfl

-- Two words and a part of one. Modulo 2^64 the last number would be that of the second word.
theorem arguments_are_words_remainder :
    word? (ofWords [.zero, .max] ++ [1, 2, 3]) 1 = .ok .max ∧
    word? (ofWords [.zero, .max] ++ [1, 2, 3]) 2 = .error .badPayload ∧
    Fetch.argument (ofWords [.zero, .max] ++ [1, 2, 3]) (2 ^ 59 + 1) =
      .error (.refused .badPayload) := by
  obtain ⟨words, -, counted⟩ := arguments_are_words
  have read := words [.zero, .max] [1, 2, 3] (by decide)
  refine ⟨(read 1).1 (by decide), (read 2).2 (by decide), ?_⟩
  rw [counted _ _ (by decide), (read (2 ^ 59 + 1)).2 (by decide)]
  rfl

end Payload

end RefMonitor
