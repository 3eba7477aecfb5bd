import RefMonitor.Key

set_option autoImplicit false

namespace RefMonitor.Key

theorem take_toWord (k : Key) : k.toWord.bytes.take 24 = k.padded :=
  List.take_left' k.length_padded

theorem drop_toWord (k : Key) : k.toWord.bytes.drop 24 = List.replicate 8 0 :=
  List.drop_left' k.length_padded

theorem dropWhile_padded (k : Key) :
    k.padded.dropWhile (· != 0) = List.replicate (24 - k.codes.length) 0 := by
  have whole : k.padded.takeWhile (· != 0) ++ k.padded.dropWhile (· != 0) = k.padded :=
    List.takeWhile_append_dropWhile
  rw [takeWhile_padded] at whole
  exact List.append_cancel_left whole

theorem ascii_padded (k : Key) : k.padded.all (· < 128) = true := by
  rw [padded, List.all_append, Bool.and_eq_true]
  constructor
  · rw [List.all_eq_true]
    intro c member
    simpa using (k.ascii_codes c member).2
  · simp

theorem ofWord_toWord (k : Key) : ofWord k.toWord = .ok k := by
  simp [ofWord, take_toWord, drop_toWord, takeWhile_padded, dropWhile_padded, ascii_padded]

theorem padded_takeWhile {high : List UInt8} (length : high.length = 24)
    (tail : ∀ c ∈ high.dropWhile (· != 0), c = 0) :
    high.takeWhile (· != 0) ++ List.replicate (24 - (high.takeWhile (· != 0)).length) 0 = high := by
  have whole : high.takeWhile (· != 0) ++ high.dropWhile (· != 0) = high :=
    List.takeWhile_append_dropWhile
  have parts := congrArg List.length whole
  rw [List.length_append, length] at parts
  have padding : high.dropWhile (· != 0) =
      List.replicate (24 - (high.takeWhile (· != 0)).length) 0 :=
    List.eq_replicate_iff.mpr ⟨by omega, tail⟩
  rw [← padding, whole]

theorem toWord_of_ofWord {w : Word} {k : Key} (h : ofWord w = .ok k) : w = k.toWord := by
  revert h
  fun_cases ofWord w with
  | case1 | case3 | case4 => rintro ⟨⟩
  | case2 high codes aligned ascii tail =>
    intro h
    cases h
    have width : high.length = 24 := by simp [high, w.length_bytes]
    have name := padded_takeWhile width (by simpa using tail)
    have low : w.bytes.drop 24 = List.replicate 8 0 :=
      List.eq_replicate_iff.mpr ⟨by simp [w.length_bytes], by simpa using aligned⟩
    apply Word.ext
    simp only [toWord, padded, codes]
    rw [name, ← low, List.take_append_drop]

theorem ofWord_eq_ok_iff (w : Word) (k : Key) : ofWord w = .ok k ↔ w = k.toWord := by
  constructor
  · exact toWord_of_ofWord
  · rintro rfl
    exact ofWord_toWord k

theorem toWord_inj {a b : Key} : a.toWord = b.toWord ↔ a = b := by
  rw [← ofWord_eq_ok_iff, ofWord_toWord, Except.ok.injEq]

theorem toWord_eq_zero_iff (k : Key) : k.toWord = .zero ↔ k = null := toWord_inj (b := null)

end RefMonitor.Key
