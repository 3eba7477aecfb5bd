import RefMonitor.Proofs.KeyWord

set_option autoImplicit false

namespace RefMonitor

theorem utf8EncodeChar_of_ascii {c : Char} (ascii : c.toNat < 128) :
    String.utf8EncodeChar c = [UInt8.ofNat c.toNat] := by
  have small : c.val.toNat ≤ 127 := Nat.le_of_lt_succ ascii
  rw [String.utf8EncodeChar, if_pos small]
  rfl

theorem ascii_of_utf8EncodeChar {c : Char} (ascii : ∀ b ∈ String.utf8EncodeChar c, b < 128) :
    c.toNat < 128 := by
  revert ascii
  fun_cases String.utf8EncodeChar c with
  | case1 v small => exact fun _ => Nat.lt_succ_of_le small
  | case2 v | case3 v | case4 v =>
    -- The first byte of a longer character is 192 or more.
    intro ascii
    have first := ascii _ (List.mem_cons_self ..)
    rw [UInt8.lt_iff_toNat_lt, UInt8.toNat_ofNat'] at first
    simp at first
    omega

theorem toNat_ofNat_of_ascii {n : Nat} (ascii : n < 128) : (Char.ofNat n).toNat = n := by
  have valid : n.isValidChar := .inl (by omega)
  rw [Char.ofNat, dif_pos valid]
  rfl

def textOf (codes : List UInt8) : String :=
  String.ofList (codes.map fun c => Char.ofNat c.toNat)

theorem utf8_textOf {codes : List UInt8} (ascii : ∀ c ∈ codes, c < 128) :
    utf8 (textOf codes) = codes := by
  rw [utf8, textOf, String.toList_ofList, List.flatMap_map]
  induction codes with
  | nil => rfl
  | cons c codes ih =>
    rw [List.forall_mem_cons] at ascii
    have small : c.toNat < 128 := UInt8.lt_iff_toNat_lt.mp ascii.1
    have value := toNat_ofNat_of_ascii small
    have byte : String.utf8EncodeChar (Char.ofNat c.toNat) = [c] := by
      rw [utf8EncodeChar_of_ascii (by rwa [value]), value, UInt8.ofNat_toNat]
    rw [List.flatMap_cons, ih ascii.2, byte, List.singleton_append]

theorem textOf_utf8 {text : String} (ascii : ∀ b ∈ utf8 text, b < 128) :
    textOf (utf8 text) = text := by
  rw [← String.toList_inj, textOf, String.toList_ofList]
  unfold utf8 at ascii ⊢
  generalize text.toList = chars at ascii ⊢
  induction chars with
  | nil => rfl
  | cons c chars ih =>
    rw [List.flatMap_cons, List.forall_mem_append] at ascii
    have small := ascii_of_utf8EncodeChar ascii.1
    have value : (UInt8.ofNat c.toNat).toNat = c.toNat :=
      UInt8.toNat_ofNat_of_lt' (Nat.lt_trans small (by decide))
    rw [List.flatMap_cons, utf8EncodeChar_of_ascii small, List.map_append, ih ascii.2,
      List.map_singleton, value, Char.ofNat_toNat, List.singleton_append]

-- Zeros stand at the end of a byte string only: what follows a zero is zero.
def ZerosLast (bytes : List UInt8) : Prop := bytes.Pairwise fun a b => a = 0 → b = 0

theorem zerosLast_iff (bytes : List UInt8) :
    ZerosLast bytes ↔ ∀ b ∈ bytes.dropWhile (· != 0), b = 0 := by
  unfold ZerosLast
  induction bytes with
  | nil => simp
  | cons a bytes ih =>
    rw [List.pairwise_cons]
    by_cases zero : a = 0
    · have rest (zeros : ∀ b ∈ bytes, b = 0) : bytes.Pairwise fun a b => a = 0 → b = 0 :=
        List.pairwise_of_forall_mem_list fun _ _ b member _ => zeros b member
      simpa [zero] using rest
    · rw [List.dropWhile_cons_of_pos (by simpa using zero), ← ih]
      simp [zero]

structure Namable (text : String) : Prop where
  nonempty : text ≠ ""
  fits : (utf8 text).length ≤ 24
  ascii : ∀ b ∈ utf8 text, b < 128
  unbroken : ∀ b ∈ utf8 text, b ≠ 0

structure Word.Legible (w : Word) : Prop where
  aligned : ∀ b ∈ w.bytes.drop 24, b = 0
  ascii : ∀ b ∈ w.bytes.take 24, b < 128
  padded : ZerosLast (w.bytes.take 24)

theorem utf8_eq_nil_iff (text : String) : utf8 text = [] ↔ text = "" := by
  rw [← String.toList_eq_nil_iff, utf8, List.flatMap_eq_nil_iff]
  constructor
  · intro none
    cases chars : text.toList with
    | nil => rfl
    | cons c rest =>
      have empty := congrArg List.length (none c (by simp [chars]))
      rw [String.length_utf8EncodeChar] at empty
      exact absurd empty (Nat.ne_of_gt c.utf8Size_pos)
  · intro empty
    simp [empty]

namespace Key

theorem utf8_name (k : Key) : utf8 k.name = k.codes :=
  utf8_textOf fun c member => (k.ascii_codes c member).2

-- A key has what the checks of a name ask for, so only the empty name remains to be told apart.
theorem ofName_eq_ok_iff_codes (text : String) (k : Key) :
    ofName text = .ok k ↔ k ≠ null ∧ k.codes = utf8 text := by
  constructor
  · fun_cases ofName text with
    | case1 | case3 | case4 | case5 => rintro ⟨⟩
    | case2 codes some_codes =>
      rintro ⟨⟩
      exact ⟨fun none => some_codes (congrArg Key.codes none), rfl⟩
  · rintro ⟨named, codes⟩
    have some_codes : k.codes ≠ [] := fun none => named (ext none)
    have ascii : k.codes.all (· < 128) = true := by
      simpa using fun c member => (k.ascii_codes c member).2
    have unbroken : k.codes.all (· != 0) = true := by
      simpa using fun c member => (k.ascii_codes c member).1
    simp only [ofName, ← codes, some_codes, k.length_codes, ascii, unbroken, if_false, dif_pos]

theorem ofName_eq_ok_iff (text : String) (k : Key) :
    ofName text = .ok k ↔ k ≠ null ∧ k.name = text := by
  rw [ofName_eq_ok_iff_codes]
  refine and_congr_right fun named => ?_
  constructor
  · intro codes
    have ascii : ∀ b ∈ utf8 text, b < 128 := by
      rw [← codes]
      exact fun c member => (k.ascii_codes c member).2
    rw [← textOf_utf8 ascii, ← codes]
    rfl
  · rintro rfl
    exact k.utf8_name.symm

theorem exists_ofName_iff (text : String) : (∃ k, ofName text = .ok k) ↔ Namable text := by
  simp only [ofName_eq_ok_iff_codes]
  constructor
  · rintro ⟨k, named, codes⟩
    have ascii := k.ascii_codes
    rw [codes] at ascii
    refine ⟨?_, codes ▸ k.length_codes, fun b member => (ascii b member).2,
      fun b member => (ascii b member).1⟩
    rintro rfl
    exact named (ext codes)
  · rintro ⟨nonempty, fits, ascii, unbroken⟩
    refine ⟨⟨utf8 text, fits, fun b member => ⟨unbroken b member, ascii b member⟩⟩, ?_, rfl⟩
    intro none
    exact nonempty ((utf8_eq_nil_iff text).mp (congrArg Key.codes none))

theorem exists_ofWord_iff (w : Word) : (∃ k, ofWord w = .ok k) ↔ w.Legible := by
  constructor
  · rintro ⟨k, read⟩
    revert read
    fun_cases ofWord w with
    | case1 | case3 | case4 => rintro ⟨⟩
    | case2 high codes aligned ascii tail =>
      intro
      exact ⟨by simpa using aligned, by simpa using ascii,
        (zerosLast_iff _).mpr (by simpa using tail)⟩
  · rintro ⟨aligned, ascii, padded⟩
    have low : (w.bytes.drop 24).all (· == 0) = true := by simpa using aligned
    have high : (w.bytes.take 24).all (· < 128) = true := by simpa using ascii
    have tail : ((w.bytes.take 24).dropWhile (· != 0)).all (· == 0) = true := by
      simpa using (zerosLast_iff _).mp padded
    simp [ofWord, low, high, tail]

theorem words_and_names_agree :
    (∀ w k, ofWord w = .ok k ↔ w = k.toWord ∧ (k = null ∨ ∃ text, ofName text = .ok k)) ∧
    (∀ text k, ofName text = .ok k ↔ k ≠ null ∧ k.name = text) ∧
    (∀ w, (∃ k, ofWord w = .ok k) ↔ w.Legible) ∧
    (∀ text, (∃ k, ofName text = .ok k) ↔ Namable text) ∧
    ∀ text, Namable text →
      ∃ k, ofName text = .ok k ∧ ofWord k.toWord = .ok k ∧ k.name = text := by
  refine ⟨?_, ofName_eq_ok_iff, exists_ofWord_iff, exists_ofName_iff, ?_⟩
  · intro w k
    rw [ofWord_eq_ok_iff, iff_self_and]
    rintro -
    by_cases none : k = null
    · exact .inl none
    · exact .inr ⟨k.name, (ofName_eq_ok_iff ..).mpr ⟨none, rfl⟩⟩
  · intro text namable
    obtain ⟨k, made⟩ := (exists_ofName_iff text).mpr namable
    exact ⟨k, made, ofWord_toWord k, ((ofName_eq_ok_iff ..).mp made).2⟩

-- A name of 24 characters leaves no room for padding.
theorem words_and_names_agree_unpadded :
    Namable "prior-of-the-scriptorium" ∧
      ∃ k, ofName "prior-of-the-scriptorium" = .ok k ∧ ofWord k.toWord = .ok k ∧
        k.name = "prior-of-the-scriptorium" := by
  have namable : Namable "prior-of-the-scriptorium" := by
    constructor <;> decide +kernel
  exact ⟨namable, words_and_names_agree.2.2.2.2 _ namable⟩

end Key

end RefMonitor
