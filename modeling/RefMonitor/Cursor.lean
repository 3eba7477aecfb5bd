import RefMonitor.Word

set_option autoImplicit false

namespace RefMonitor

structure Cursor where
  offset : Nat
  rest : List Word
  deriving DecidableEq

namespace Cursor

def ofWords (words : List Word) (offset : Nat) : Cursor := ⟨offset, words.drop offset⟩

def skip (c : Cursor) (count : Nat) : Cursor := ⟨c.offset + count, c.rest.drop count⟩

@[simp] theorem skip_zero (c : Cursor) : c.skip 0 = c := rfl

theorem skip_skip (c : Cursor) (m n : Nat) : (c.skip m).skip n = c.skip (m + n) := by
  simp [skip, Nat.add_assoc]

structure Passes (c : Cursor) (words : List Word) (next : Cursor) : Prop where
  rest : c.rest = words ++ next.rest
  offset : next.offset = c.offset + words.length

theorem passes_nil_iff (c next : Cursor) : c.Passes [] next ↔ next = c := by
  constructor
  · rintro ⟨rest, offset⟩
    cases c
    cases next
    simp_all
  · rintro rfl
    exact ⟨rfl, rfl⟩

theorem passes_append_iff (c next : Cursor) (xs ys : List Word) :
    c.Passes (xs ++ ys) next ↔ ∃ middle, c.Passes xs middle ∧ middle.Passes ys next := by
  constructor
  · rintro ⟨rest, offset⟩
    refine ⟨⟨c.offset + xs.length, ys ++ next.rest⟩, ⟨by simp [rest], rfl⟩, rfl, ?_⟩
    rw [offset, List.length_append, Nat.add_assoc]
  · rintro ⟨middle, first, second⟩
    refine ⟨by simp [first.rest, second.rest], ?_⟩
    rw [second.offset, first.offset, List.length_append, Nat.add_assoc]

theorem Passes.eq_skip {c next : Cursor} {words : List Word} (passes : c.Passes words next) :
    next = c.skip words.length := by
  cases next
  simp [skip, passes.rest, passes.offset.symm]

theorem Passes.place {words part : List Word} {offset : Nat} {next : Cursor}
    (passes : (ofWords words offset).Passes part next) :
    next = ofWords words (offset + part.length) := by
  rw [passes.eq_skip, skip, ofWords, List.drop_drop]
  rfl

theorem Passes.within {words part : List Word} {offset : Nat} {next : Cursor}
    (passes : (ofWords words offset).Passes part next) (some_words : 1 ≤ part.length) :
    offset + part.length ≤ words.length := by
  have rest : words.drop offset = part ++ next.rest := passes.rest
  have length := congrArg List.length rest
  rw [List.length_drop, List.length_append] at length
  omega

theorem passes_skip {c : Cursor} {words later : List Word} (rest : c.rest = words ++ later) :
    c.Passes words (c.skip words.length) :=
  ⟨by simp [skip, rest], rfl⟩

theorem passes_ofWords (words later : List Word) :
    (ofWords (words ++ later) 0).Passes words ⟨words.length, later⟩ :=
  ⟨rfl, (Nat.zero_add _).symm⟩

end Cursor

end RefMonitor
