import RefMonitor.Log

set_option autoImplicit false

namespace RefMonitor

theorem byteSize_append (xs ys : List Char) : byteSize (xs ++ ys) = byteSize xs + byteSize ys := by
  induction xs with
  | nil => simp
  | cons c xs ih => rw [List.cons_append, byteSize_cons, byteSize_cons, ih, Nat.add_assoc]

theorem byteSize_le_of_suffix {xs ys : List Char} (suffix : xs <:+ ys) :
    byteSize xs ≤ byteSize ys := by
  obtain ⟨front, rfl⟩ := suffix
  rw [byteSize_append]
  exact Nat.le_add_left ..

theorem suffix_of_suffix_cons {c : Char} {text back : List Char} (suffix : back <:+ c :: text)
    (smaller : byteSize back < byteSize (c :: text)) : back <:+ text := by
  rcases List.suffix_cons_iff.mp suffix with rfl | later
  · exact absurd smaller (Nat.lt_irrefl _)
  · exact later

theorem dropBytes_suffix (excess : Nat) (text : List Char) : dropBytes excess text <:+ text := by
  induction text generalizing excess with
  | nil => cases excess <;> exact List.suffix_refl []
  | cons c text ih =>
    cases excess with
    | zero => exact List.suffix_refl _
    | succ excess => exact (ih _).trans (List.suffix_cons c text)

theorem byteSize_dropBytes_add_le {excess : Nat} {text : List Char}
    (enough : excess ≤ byteSize text) :
    byteSize (dropBytes excess text) + excess ≤ byteSize text := by
  induction text generalizing excess with
  | nil =>
    obtain rfl : excess = 0 := by simpa using enough
    simp [dropBytes]
  | cons c text ih =>
    cases excess with
    | zero => simp [dropBytes]
    | succ excess =>
      rw [byteSize_cons] at enough
      have rest := @ih (excess + 1 - c.utf8Size) (by omega)
      rw [dropBytes, byteSize_cons]
      omega

theorem suffix_dropBytes {excess : Nat} {text other : List Char} (suffix : other <:+ text)
    (small : byteSize other + excess ≤ byteSize text) : other <:+ dropBytes excess text := by
  induction text generalizing excess with
  | nil =>
    rw [List.suffix_nil.mp suffix]
    exact List.nil_suffix
  | cons c text ih =>
    cases excess with
    | zero => exact suffix
    | succ excess =>
      have later := suffix_of_suffix_cons suffix (by omega)
      have part := byteSize_le_of_suffix later
      rw [byteSize_cons] at small
      exact ih later (by omega)

structure Newest (capacity : Nat) (text kept : List Char) : Prop where
  suffix : kept <:+ text
  fits : byteSize kept ≤ capacity
  longest : ∀ other, other <:+ text → byteSize other ≤ capacity → other <:+ kept

namespace Newest

variable {capacity : Nat} {text kept : List Char}

theorem dropBytes (capacity : Nat) (text : List Char) :
    Newest capacity text (dropBytes (byteSize text - capacity) text) where
  suffix := dropBytes_suffix _ text
  fits := by
    have rest := byteSize_dropBytes_add_le (Nat.sub_le (byteSize text) capacity)
    omega
  longest other suffix small := by
    have part := byteSize_le_of_suffix suffix
    exact suffix_dropBytes suffix (by omega)

theorem nil (capacity : Nat) : Newest capacity [] [] where
  suffix := List.suffix_refl []
  fits := Nat.zero_le capacity
  longest _ suffix _ := suffix

theorem refl (fits : byteSize text ≤ capacity) : Newest capacity text text where
  suffix := List.suffix_refl text
  fits := fits
  longest _ suffix _ := suffix

theorem unique {other : List Char} (first : Newest capacity text kept)
    (second : Newest capacity text other) : kept = other :=
  (second.longest kept first.suffix first.fits).eq_of_length_le
    (first.longest other second.suffix second.fits).length_le

-- What was given up before does not come back when more is written: an end of the longer text that
-- reaches back past what was kept would have been kept.
theorem append {more next : List Char} (before : Newest capacity text kept)
    (after : Newest capacity (kept ++ more) next) : Newest capacity (text ++ more) next := by
  have stripped {xs ys : List Char} : xs ++ more <:+ ys ++ more ↔ xs <:+ ys := by
    simp [List.suffix_append_inj_of_length_eq]
  have reach : kept ++ more <:+ text ++ more := stripped.mpr before.suffix
  refine ⟨after.suffix.trans reach, after.fits, ?_⟩
  intro other suffix small
  apply after.longest other _ small
  rcases List.suffix_or_suffix_of_suffix suffix reach with inside | past
  · exact inside
  · obtain ⟨front, rfl⟩ := past
    rw [← List.append_assoc] at suffix small ⊢
    rw [byteSize_append] at small
    have same := before.longest (front ++ kept) (stripped.mp suffix) (by omega)
    exact stripped.mpr same

end Newest

namespace Console

def Keeps (c : Console) (text : List Char) : Prop := Newest c.capacity text c.contents

theorem keeps_write_own (c : Console) (text : String) :
    (c.write text).Keeps (c.contents ++ text.toList) := Newest.dropBytes ..

variable {c : Console}

theorem Keeps.write {text : List Char} (keeps : c.Keeps text) (more : String) :
    (c.write more).Keeps (text ++ more.toList) := keeps.append (c.keeps_write_own more)

theorem dropped_write_add_size (c : Console) (text : String) :
    (c.write text).dropped + (c.write text).size = c.dropped + c.size + byteSize text.toList := by
  have part := byteSize_dropBytes_le (byteSize (c.contents ++ text.toList) - c.capacity)
    (c.contents ++ text.toList)
  have whole := byteSize_append c.contents text.toList
  simp only [Console.write, size]
  omega

theorem eq_of_contents {a b : Console} (contents : a.contents = b.contents)
    (capacity : a.capacity = b.capacity) (bytes : a.dropped + a.size = b.dropped + b.size) :
    a = b := by
  cases a
  cases b
  simp_all [size]

theorem write_write (c : Console) (s t : String) : (c.write s).write t = c.write (s ++ t) := by
  have pieces : ((c.write s).write t).Keeps (c.contents ++ (s ++ t).toList) := by
    rw [String.toList_append, ← List.append_assoc]
    exact (c.keeps_write_own s).write t
  refine eq_of_contents (pieces.unique (c.keeps_write_own (s ++ t))) rfl ?_
  rw [dropped_write_add_size, dropped_write_add_size, dropped_write_add_size, String.toList_append,
    byteSize_append]
  omega

theorem write_empty (fits : c.size ≤ c.capacity) : c.write "" = c := by
  have own := c.keeps_write_own ""
  rw [String.toList_empty, List.append_nil] at own
  refine eq_of_contents (own.unique (.refl fits)) rfl ?_
  rw [dropped_write_add_size]
  rfl

theorem size_write_le (c : Console) (text : String) :
    (c.write text).size ≤ (c.write text).capacity :=
  (c.keeps_write_own text).fits

theorem foldl_write (fits : c.size ≤ c.capacity) (pieces : List String) :
    pieces.foldl write c = c.write (String.join pieces) := by
  induction pieces generalizing c with
  | nil => exact (write_empty fits).symm
  | cons piece pieces ih =>
    rw [List.foldl_cons, ih (c.size_write_le piece), write_write, String.join_cons]

theorem serve_append (c : Console) (first second : List Request) :
    c.serve (first ++ second) =
      ((c.serve first).1 ++ ((c.serve first).2.serve second).1,
        ((c.serve first).2.serve second).2) := by
  induction first generalizing c with
  | nil => rfl
  | cons request first ih => cases request <;> simp [serve, ih]

theorem serve_writes_append (fits : c.size ≤ c.capacity) (pieces : List String)
    (later : List Request) :
    c.serve (pieces.map .write ++ later) = c.serve (.write (String.join pieces) :: later) := by
  have foldl (c : Console) :
      c.serve (pieces.map .write ++ later) = (pieces.foldl write c).serve later := by
    induction pieces generalizing c with
    | nil => rfl
    | cons piece pieces ih => exact ih (c.write piece)
  rw [foldl, foldl_write fits]
  rfl

namespace Request

def written : List Request → List Char
  | [] => []
  | .write text :: requests => text.toList ++ written requests
  | .take :: requests => written requests

def pending (text : List Char) : List Request → List Char
  | [] => text
  | .write more :: requests => pending (text ++ more.toList) requests
  | .take :: requests => pending [] requests

end Request

theorem capacity_serve (c : Console) (requests : List Request) :
    (c.serve requests).2.capacity = c.capacity := by
  induction requests generalizing c with
  | nil => rfl
  | cons request requests ih => cases request <;> exact ih _

theorem Keeps.serve {text : List Char} (keeps : c.Keeps text) (requests : List Request) :
    (c.serve requests).2.Keeps (Request.pending text requests) := by
  induction requests generalizing c text with
  | nil => exact keeps
  | cons request requests ih =>
    cases request with
    | write more => exact ih (keeps.write more)
    | take => exact ih (.nil c.capacity)

theorem byteSize_written_add (c : Console) (requests : List Request) :
    byteSize (Request.written requests) + (c.dropped + c.size) =
      (c.serve requests).2.dropped + byteSize ((c.serve requests).1.flatMap String.toList) +
        (c.serve requests).2.size := by
  induction requests generalizing c with
  | nil => simp [Request.written, serve]
  | cons request requests ih =>
    cases request with
    | write text =>
      have rest := ih (c.write text)
      have one := c.dropped_write_add_size text
      rw [Request.written, byteSize_append, serve]
      omega
    | take =>
      have rest := ih c.take.2
      have taken : byteSize c.text.toList = c.size := by rw [text, String.toList_ofList, size]
      simp only [serve, Request.written, take, List.flatMap_cons, byteSize_append, taken, size,
        byteSize_nil] at rest ⊢
      omega

theorem size_history_le (capacity : Nat) (requests : List Request) :
    (history capacity requests).2.size ≤ (history capacity requests).2.capacity :=
  (Keeps.serve (c := empty capacity) (.nil capacity) requests).fits

end Console

theorem LogRecord.writeAll_eq_foldl {c : Console} (fits : c.size ≤ c.capacity) (filter : LogFilter)
    (records : List LogRecord) :
    writeAll filter c records = records.foldl (LogRecord.write filter) c := by
  rw [writeAll, ← Console.foldl_write fits, List.foldl_map, List.foldl_filter]
  rfl

end RefMonitor
