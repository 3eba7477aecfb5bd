import RefMonitor.Proofs.WordNumber
import RefMonitor.Word

set_option autoImplicit false

namespace RefMonitor

namespace Hex

def extend (n : Nat) (digits : List Nat) : Nat := digits.foldl (fun n d => 16 * n + d) n

theorem digit_eq : ∀ d < 16, digit d = Nat.digitChar d := by decide

theorem value?_digitChar : ∀ d < 16, value? (Nat.digitChar d) = some d := by decide

theorem nibbles_lt (b : UInt8) : ∀ d ∈ nibbles b, d < 16 := by
  have top := b.toNat_lt
  simp only [nibbles, List.forall_mem_cons, List.not_mem_nil, false_implies, implies_true, and_true]
  omega

theorem extend_nibbles (n : Nat) (bytes : List UInt8) :
    extend n (bytes.flatMap nibbles) = bytes.foldl (fun n b => 256 * n + b.toNat) n := by
  induction bytes generalizing n with
  | nil => rfl
  | cons b bytes ih =>
    have both : 16 * (16 * n + b.toNat / 16) + b.toNat % 16 = 256 * n + b.toNat := by omega
    rw [List.flatMap_cons, extend, List.foldl_append, List.foldl_cons, ← ih, ← both]
    rfl

theorem toDigits_extend {n : Nat} (positive : 0 < n) {digits : List Nat}
    (small : ∀ d ∈ digits, d < 16) :
    Nat.toDigits 16 n ++ digits.map digit = Nat.toDigits 16 (extend n digits) := by
  induction digits generalizing n with
  | nil => simp [extend]
  | cons d digits ih =>
    rw [List.forall_mem_cons] at small
    have longer := Nat.toDigits_append_toDigits (b := 16) (by decide) positive small.1
    rw [Nat.toDigits_of_lt_base small.1] at longer
    rw [List.map_cons, digit_eq d small.1, List.append_cons, longer, ih (by omega) small.2]
    rfl

theorem shortest_eq {digits : List Nat} (small : ∀ d ∈ digits, d < 16) :
    shortest digits = String.ofList (Nat.toDigits 16 (extend 0 digits)) := by
  induction digits with
  | nil => rfl
  | cons d digits ih =>
    rw [List.forall_mem_cons] at small
    by_cases zero : d = 0
    · subst zero
      exact ih small.2
    · have numeral := toDigits_extend (Nat.pos_of_ne_zero zero) small.2
      rw [Nat.toDigits_of_lt_base small.1, ← digit_eq d small.1] at numeral
      have kept : (d :: digits).dropWhile (· == 0) = d :: digits :=
        List.dropWhile_cons_of_neg (by simpa using zero)
      have head : extend 0 (d :: digits) = extend d digits := by simp [extend]
      simp only [shortest, kept, head, ← numeral, List.map_cons, List.singleton_append]

theorem pair_eq (b : UInt8) : pair b = (nibbles b).map digit := by
  have top := b.toNat_lt
  have high : b.toNat / 16 < 16 := by omega
  have low : b.toNat % 16 < 16 := by omega
  have whole : 16 * (b.toNat / 16) + b.toNat % 16 = b.toNat := Nat.div_add_mod ..
  simp only [pair, least, nibbles, List.map_cons, List.map_nil, digit_eq _ high, digit_eq _ low]
  by_cases one : b.toNat < 16
  · rw [Nat.toDigits_of_lt_base one, Nat.div_eq_of_lt one, Nat.mod_eq_of_lt one]
    rfl
  · have numeral := Nat.toDigits_append_toDigits (b := 16) (by decide)
      (show 0 < b.toNat / 16 by omega) low
    rw [whole, Nat.toDigits_of_lt_base high, Nat.toDigits_of_lt_base low] at numeral
    rw [← numeral]
    rfl

theorem printed_eq (bytes : List UInt8) :
    printed bytes = Nat.toDigits 16 (ofBigEndian bytes) := by
  induction bytes with
  | nil => rfl
  | cons b bytes ih =>
    by_cases zero : b = 0
    · subst zero
      rw [ofBigEndian_cons, UInt8.toNat_zero, Nat.mul_zero, Nat.zero_add]
      exact ih
    · have small : ∀ d ∈ bytes.flatMap nibbles, d < 16 :=
        List.forall_mem_flatMap.mpr fun b _ => nibbles_lt b
      have numeral := toDigits_extend (toNat_pos zero) small
      have pairs : bytes.flatMap pair = (bytes.flatMap nibbles).map digit := by
        rw [List.map_flatMap, funext pair_eq]
      have kept : (b :: bytes).dropWhile (· == 0) = b :: bytes :=
        List.dropWhile_cons_of_neg (by simpa using zero)
      simp only [printed, kept, least, pairs, numeral, extend_nibbles]
      simp [ofBigEndian]

theorem value?_lt {c : Char} {d : Nat} (read : value? c = some d) : d < 16 := by
  revert read
  fun_cases value? c with
  | case1 inside =>
    have last : c.toNat ≤ 57 := inside.2
    rintro ⟨⟩
    omega
  | case2 _ inside =>
    have last : c.toNat ≤ 102 := inside.2
    rintro ⟨⟩
    omega
  | case3 _ _ inside =>
    have last : c.toNat ≤ 70 := inside.2
    rintro ⟨⟩
    omega
  | case4 => rintro ⟨⟩

theorem of_mapM_value? {cs : List Char} {digits : List Nat}
    (read : cs.mapM value? = some digits) :
    digits.length = cs.length ∧ ∀ d ∈ digits, d < 16 := by
  induction cs generalizing digits with
  | nil =>
    cases read
    simp
  | cons c cs ih =>
    simp only [List.mapM_cons, Option.bind_eq_bind, Option.bind_eq_some_iff, Option.pure_def,
      Option.some_inj] at read
    obtain ⟨d, first, rest, others, rfl⟩ := read
    obtain ⟨length, small⟩ := ih others
    exact ⟨congrArg (· + 1) length, List.forall_mem_cons.mpr ⟨value?_lt first, small⟩⟩

theorem extend_lt (n : Nat) {digits : List Nat} (small : ∀ d ∈ digits, d < 16) :
    extend n digits < 16 ^ digits.length * (n + 1) := by
  induction digits generalizing n with
  | nil => simp [extend]
  | cons d digits ih =>
    rw [List.forall_mem_cons] at small
    calc extend n (d :: digits)
        = extend (16 * n + d) digits := rfl
      _ < 16 ^ digits.length * (16 * n + d + 1) := ih _ small.2
      _ ≤ 16 ^ digits.length * (16 * (n + 1)) := Nat.mul_le_mul_left _ (by omega)
      _ = 16 ^ (d :: digits).length * (n + 1) := by
        rw [List.length_cons, Nat.pow_succ, Nat.mul_assoc]

-- The digits of a numeral read back as its number. The last of them is taken off until one is left.
theorem mapM_value?_toDigits (n : Nat) :
    ∃ digits, (Nat.toDigits 16 n).mapM value? = some digits ∧ digits ≠ [] ∧
      extend 0 digits = n := by
  induction n using Nat.strongRecOn with
  | ind n ih =>
    by_cases one : n < 16
    · refine ⟨[n], ?_, by simp, by simp [extend]⟩
      rw [Nat.toDigits_of_lt_base one]
      simp [value?_digitChar n one]
    · obtain ⟨front, read, -, number⟩ := ih (n / 16) (by omega)
      refine ⟨front ++ [n % 16], ?_, by simp, ?_⟩
      · rw [Nat.toDigits_of_base_le (by decide) (by omega), List.mapM_append, read]
        simp [value?_digitChar (n % 16) (by omega)]
      · rw [extend, List.foldl_append]
        change 16 * extend 0 front + n % 16 = n
        omega

theorem nat?_eq_some_iff (cs : List Char) (n : Nat) :
    nat? (String.ofList cs) = some n ↔
      ∃ digits, cs.mapM value? = some digits ∧ digits ≠ [] ∧ extend 0 digits = n := by
  rw [nat?, String.toList_ofList]
  split
  next unread => simp [unread]
  next empty => simp [empty]
  next digits some_digits read =>
    rw [read, Option.some_inj]
    constructor
    · exact fun number => ⟨digits, rfl, some_digits, number⟩
    · rintro ⟨_, ⟨⟩, -, number⟩
      exact number

theorem nat?_toDigits (n : Nat) : nat? (String.ofList (Nat.toDigits 16 n)) = some n :=
  (nat?_eq_some_iff ..).mpr (mapM_value?_toDigits n)

theorem length_toDigits_le_of_nat? {cs : List Char} {n : Nat}
    (read : nat? (String.ofList cs) = some n) : (Nat.toDigits 16 n).length ≤ cs.length := by
  obtain ⟨digits, values, some_digits, rfl⟩ := (nat?_eq_some_iff ..).mp read
  obtain ⟨length, small⟩ := of_mapM_value? values
  have below := extend_lt 0 small
  rw [← length, Nat.length_toDigits_le_iff (by decide) (List.length_pos_iff.mpr some_digits)]
  simpa using below

end Hex

namespace Word

theorem text_eq (w : Word) : w.text = "0x" ++ String.ofList (Nat.toDigits 16 w.toNat) := by
  have small : ∀ d ∈ w.bytes.flatMap Hex.nibbles, d < 16 :=
    List.forall_mem_flatMap.mpr fun b _ => Hex.nibbles_lt b
  rw [text, Hex.shortest_eq small, Hex.extend_nibbles]
  rfl

theorem printed_eq (w : Word) : w.printed = w.text := by
  rw [text_eq, printed, Hex.printed_eq]
  rfl

theorem ofText?_eq_some_iff (text : String) (w : Word) :
    ofText? text = some w ↔
      ∃ cs, text.toList = '0' :: 'x' :: cs ∧ Hex.nat? (String.ofList cs) = some w.toNat := by
  rw [ofText?]
  split
  next cs chars =>
    simp only [chars, List.cons.injEq, true_and, exists_eq_left']
    cases Hex.nat? (String.ofList cs) with
    | none => simp
    | some n =>
      dsimp only
      constructor
      · intro fits
        split at fits
        next value =>
          obtain rfl := Option.some.inj fits
          rw [value]
        next => exact absurd fits (Option.some_ne_none _).symm
      · intro number
        obtain rfl := Option.some.inj number
        rw [ofNat_toNat, if_pos rfl]
  next other =>
    simp only [reduceCtorEq, false_iff, not_exists, not_and]
    exact fun cs chars => absurd chars (other cs)

theorem toList_text (w : Word) : w.text.toList = '0' :: 'x' :: Nat.toDigits 16 w.toNat := by
  rw [text_eq, String.toList_append, String.toList_ofList, String.toList_ofList]
  rfl

theorem ofText?_text (w : Word) : ofText? w.text = some w :=
  (ofText?_eq_some_iff ..).mpr ⟨_, w.toList_text, Hex.nat?_toDigits w.toNat⟩

theorem text_inj {a b : Word} : a.text = b.text ↔ a = b := by
  constructor
  · intro same
    rw [← Option.some_inj, ← ofText?_text a, same, ofText?_text]
  · rintro rfl
    rfl

theorem length_text_le {w : Word} {text : String} (read : ofText? text = some w) :
    w.text.length ≤ text.length := by
  obtain ⟨cs, chars, number⟩ := (ofText?_eq_some_iff ..).mp read
  have digits := Hex.length_toDigits_le_of_nat? number
  rw [← String.length_toList, ← String.length_toList, toList_text, chars]
  simpa using digits

theorem text_is_numeral :
    (∀ w : Word, w.printed = "0x" ++ String.ofList (Nat.toDigits 16 w.toNat)) ∧
    (∀ w : Word, w.text = w.printed) ∧
    (∀ w : Word, ofText? w.text = some w) ∧
    (∀ a b : Word, a.text = b.text ↔ a = b) ∧
    ∀ w text, ofText? text = some w → w.text.length ≤ text.length := by
  refine ⟨?_, fun w => (printed_eq w).symm, ofText?_text, fun _ _ => text_inj,
    fun _ _ => length_text_le⟩
  intro w
  rw [printed_eq, text_eq]

theorem text_is_numeral_padded :
    ofText? "0x00c0Ffee" = some (ofNat 0xc0ffee) ∧
      (ofNat 0xc0ffee).text.length ≤ "0x00c0Ffee".length := by
  have read : ofText? "0x00c0Ffee" = some (ofNat 0xc0ffee) := by decide +kernel
  exact ⟨read, text_is_numeral.2.2.2.2 _ _ read⟩

example : (ofNat 0x10203).printed = "0x10203" := by decide +kernel

end Word

end RefMonitor
