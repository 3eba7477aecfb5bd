import RefMonitor.Proofs.Newest
import RefMonitor.Spool

set_option autoImplicit false

namespace RefMonitor

theorem utf8EncodeChar_cases (c : Char) :
    ∃ first more, String.utf8EncodeChar c = first :: more ∧ (first < 128 ∨ 192 ≤ first) ∧
      ∀ b ∈ more, 128 ≤ b ∧ b < 192 := by
  simp only [UInt8.lt_iff_toNat_lt, UInt8.le_iff_toNat_le]
  fun_cases String.utf8EncodeChar c with
  | case1 v =>
    refine ⟨_, _, rfl, ?_, by simp⟩
    rw [UInt8.toNat_ofNat']
    simp
    omega
  | case2 v | case3 v | case4 v =>
    refine ⟨_, _, rfl, ?_⟩
    simp
    omega

def octets (text : List Char) : List UInt8 := text.flatMap String.utf8EncodeChar

theorem octets_append (xs ys : List Char) : octets (xs ++ ys) = octets xs ++ octets ys :=
  List.flatMap_append

theorem octets_cons (c : Char) (text : List Char) :
    octets (c :: text) = String.utf8EncodeChar c ++ octets text := rfl

theorem length_octets (text : List Char) : (octets text).length = byteSize text := by
  induction text with
  | nil => rfl
  | cons c text ih =>
    rw [octets_cons, List.length_append, ih, String.length_utf8EncodeChar, byteSize_cons]

namespace Spool

variable {text : List Char}

theorem isBoundary_inside (c : Char) (rest : List UInt8) {i : Nat} (begun : 0 < i)
    (inside : i < c.utf8Size) : isBoundary (String.utf8EncodeChar c ++ rest) i = false := by
  obtain ⟨first, more, bytes, -, others⟩ := utf8EncodeChar_cases c
  obtain ⟨j, rfl⟩ := Nat.exists_eq_succ_of_ne_zero (Nat.ne_of_gt begun)
  have there : j < more.length := by
    have length := String.length_utf8EncodeChar c
    rw [bytes, List.length_cons] at length
    omega
  have found : (String.utf8EncodeChar c ++ rest)[j + 1]? = some more[j] := by
    rw [bytes, List.cons_append, List.getElem?_cons_succ, List.getElem?_append_left there,
      List.getElem?_eq_getElem there]
  obtain ⟨low, high⟩ := others _ (List.getElem_mem there)
  simp only [isBoundary, found, Nat.succ_eq_add_one]
  simp [UInt8.not_lt, UInt8.not_le, low, high]

theorem isBoundary_beyond (c : Char) (text : List Char) (i : Nat) :
    isBoundary (String.utf8EncodeChar c ++ octets text) (c.utf8Size + i) =
      isBoundary (octets text) i := by
  have wide := c.utf8Size_pos
  have length := String.length_utf8EncodeChar c
  have found : (String.utf8EncodeChar c ++ octets text)[c.utf8Size + i]? = (octets text)[i]? := by
    rw [← length, List.getElem?_append_right (Nat.le_add_right ..), Nat.add_sub_cancel_left]
  cases i with
  | zero =>
    cases text with
    | nil => simp [isBoundary, octets, length]
    | cons d text =>
      obtain ⟨first, more, bytes, begins, -⟩ := utf8EncodeChar_cases d
      simp [isBoundary, octets_cons, bytes, begins]
  | succ i =>
    rw [isBoundary, isBoundary, found, List.length_append, length]
    cases (octets text)[i + 1]? <;> grind

theorem isBoundary_iff (text : List Char) (i : Nat) :
    isBoundary (octets text) i = true ↔
      ∃ back, back <:+ text ∧ byteSize back + i = byteSize text := by
  induction text generalizing i with
  | nil =>
    constructor
    · intro boundary
      refine ⟨[], List.suffix_refl [], ?_⟩
      simpa [isBoundary, octets] using boundary
    · rintro ⟨back, suffix, length⟩
      rw [List.suffix_nil.mp suffix] at length
      simpa [isBoundary, octets] using length
  | cons c text ih =>
    by_cases beyond : c.utf8Size ≤ i
    · obtain ⟨j, rfl⟩ := Nat.exists_eq_add_of_le beyond
      rw [octets_cons, isBoundary_beyond, ih, byteSize_cons]
      constructor
      · rintro ⟨back, suffix, length⟩
        exact ⟨back, suffix.trans (List.suffix_cons c text), by omega⟩
      · rintro ⟨back, suffix, length⟩
        have wide := c.utf8Size_pos
        have later := suffix_of_suffix_cons suffix (by rw [byteSize_cons]; omega)
        exact ⟨back, later, by omega⟩
    · by_cases begun : 0 < i
      · rw [octets_cons, isBoundary_inside c _ begun (Nat.lt_of_not_le beyond), byteSize_cons]
        simp only [Bool.false_eq_true, false_iff]
        rintro ⟨back, suffix, length⟩
        have later := suffix_of_suffix_cons suffix (by rw [byteSize_cons]; omega)
        have part := byteSize_le_of_suffix later
        omega
      · obtain rfl : i = 0 := by omega
        simp only [isBoundary, beq_self_eq_true, Bool.true_or, true_iff]
        exact ⟨c :: text, List.suffix_refl _, rfl⟩

theorem boundary?_eq_some {bytes : List UInt8} {start stop : Nat} (ordered : start ≤ stop)
    (inside : stop ≤ bytes.length) (boundary : isBoundary bytes stop = true)
    (first : ∀ i, start ≤ i → i < stop → isBoundary bytes i = false) :
    boundary? bytes start = some stop := by
  fun_induction boundary? bytes start with
  | case1 start here =>
    rcases Nat.lt_or_eq_of_le ordered with before | rfl
    · rw [first start (Nat.le_refl _) before] at here
      cases here
    · rfl
  | case2 start there more ih =>
    have before : start ≠ stop := by
      rintro rfl
      exact there boundary
    exact ih (by omega) fun i late => first i (by omega)
  | case3 start there finished =>
    obtain rfl : start = stop := by omega
    exact absurd boundary there

theorem boundary?_octets {excess : Nat} (enough : excess ≤ byteSize text) :
    boundary? (octets text) excess = some (byteSize text - byteSize (dropBytes excess text)) := by
  have part := byteSize_dropBytes_le excess text
  have rest := byteSize_dropBytes_add_le enough
  apply boundary?_eq_some
  · omega
  · rw [length_octets]
    omega
  · exact (isBoundary_iff ..).mpr ⟨_, dropBytes_suffix excess text, by omega⟩
  · intro i late early
    rw [← Bool.not_eq_true, isBoundary_iff]
    rintro ⟨back, suffix, length⟩
    have kept : back <:+ dropBytes excess text := suffix_dropBytes suffix (by omega)
    have size := byteSize_le_of_suffix kept
    omega

theorem drop_octets {back : List Char} (suffix : back <:+ text) :
    (octets text).drop (byteSize text - byteSize back) = octets back := by
  obtain ⟨front, rfl⟩ := suffix
  rw [byteSize_append, Nat.add_sub_cancel, octets_append, ← length_octets, List.drop_left]

theorem ofConsole_eq (c : Console) : ofConsole c = ⟨octets c.contents, c.capacity, c.dropped⟩ := by
  simp [ofConsole, Console.text, utf8, octets]

theorem write?_ofConsole (c : Console) (text : String) (counted : (c.write text).dropped < 2 ^ 64) :
    (ofConsole c).write? (utf8 text) = some (ofConsole (c.write text)) := by
  have whole : octets c.contents ++ utf8 text = octets (c.contents ++ text.toList) := by
    rw [octets_append]
    rfl
  rw [ofConsole_eq, ofConsole_eq]
  simp only [write?, whole, length_octets, Console.write] at counted ⊢
  generalize c.contents ++ text.toList = all at counted ⊢
  split
  next fits =>
    have nothing : byteSize all - c.capacity = 0 := Nat.sub_eq_zero_of_le fits
    simp only [nothing, dropBytes, Nat.sub_self, Nat.add_zero]
  next wide =>
    have cut := drop_octets (dropBytes_suffix (byteSize all - c.capacity) all)
    rw [boundary?_octets (Nat.sub_le ..), Option.bind_some, if_pos counted, cut]

theorem dropped_le_serve (c : Console) (requests : List Console.Request) :
    c.dropped ≤ (c.serve requests).2.dropped := by
  induction requests generalizing c with
  | nil => exact Nat.le_refl _
  | cons request requests ih =>
    cases request with
    | write text => exact Nat.le_trans (Nat.le_add_right ..) (ih (c.write text))
    | take => exact ih c.take.2

theorem serve?_ofConsole (c : Console) (requests : List Console.Request)
    (counted : (c.serve requests).2.dropped < 2 ^ 64) :
    (ofConsole c).serve? requests =
      some ((c.serve requests).1.map utf8, ofConsole (c.serve requests).2) := by
  induction requests generalizing c with
  | nil => rfl
  | cons request requests ih =>
    cases request with
    | write text =>
      have before := Nat.lt_of_le_of_lt (dropped_le_serve (c.write text) requests) counted
      rw [serve?, write?_ofConsole c text before]
      exact ih (c.write text) counted
    | take =>
      rw [serve?, show { ofConsole c with bytes := [] } = ofConsole c.take.2 from rfl,
        ih c.take.2 counted]
      rfl

end Spool

namespace Console

theorem newest_text_kept (capacity : Nat) (requests : List Request) :
    Newest capacity (Request.pending [] requests) (history capacity requests).2.contents ∧
    (∀ pieces later,
      history capacity (requests ++ pieces.map .write ++ later) =
        history capacity (requests ++ .write (String.join pieces) :: later)) ∧
    byteSize (Request.written requests) =
      (history capacity requests).2.dropped +
        byteSize ((history capacity requests).1.flatMap String.toList) +
        (history capacity requests).2.size ∧
    ((history capacity requests).2.dropped < 2 ^ 64 →
      (Spool.empty capacity).serve? requests =
        some ((history capacity requests).1.map utf8,
          .ofConsole (history capacity requests).2)) := by
  have keeps := Keeps.serve (c := empty capacity) (.nil capacity) requests
  have bytes := byteSize_written_add (empty capacity) requests
  rw [Keeps, capacity_serve] at keeps
  refine ⟨keeps, ?_, bytes, Spool.serve?_ofConsole (empty capacity) requests⟩
  intro pieces later
  have joined := serve_writes_append (size_history_le capacity requests) pieces later
  rw [history] at joined
  rw [history, history, List.append_assoc, serve_append _ requests, joined,
    serve_append _ requests]

-- Both cuts fall inside a character, the first of two bytes and the second of four.
def straddled : List Request := [.write "aé中", .write "b", .take, .write "😀x"]

theorem newest_text_kept_straddled :
    history 4 straddled = (["中b"], ⟨['x'], 4, 7⟩) ∧
    (Spool.empty 4).serve? straddled = some ([utf8 "中b"], .ofConsole ⟨['x'], 4, 7⟩) := by
  have seen : history 4 straddled = (["中b"], ⟨['x'], 4, 7⟩) := by decide +kernel
  have stored := (newest_text_kept 4 straddled).2.2.2
  rw [seen] at stored
  exact ⟨seen, stored (by decide)⟩

end Console

end RefMonitor
