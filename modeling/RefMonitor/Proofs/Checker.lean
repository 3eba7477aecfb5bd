import Mathlib.Data.List.Nodup
import Mathlib.Data.List.Perm.Subperm
import RefMonitor.Proofs.TableInvariant

set_option autoImplicit false

namespace RefMonitor

theorem flatMap_zipIdx_eq_nil_iff {α β : Type} (xs : List α) (check : α × Nat → List β) :
    xs.zipIdx.flatMap check = [] ↔ ∀ (i : Nat) (x : α), xs[i]? = some x → check (x, i) = [] := by
  rw [List.flatMap_eq_nil_iff]
  constructor
  · intro clean i x there
    exact clean (x, i) (List.mem_zipIdx_iff_getElem?.mpr there)
  · rintro clean ⟨x, i⟩ member
    exact clean i x (List.mem_zipIdx_iff_getElem?.mp member)

namespace Table

theorem keyViolations_eq_nil_iff (t : Table) : t.keyViolations = [] ↔
    t.positions.size = t.length ∧
      ∀ (position : Nat) (key : Key), t.keys[position]? = some key →
        t.positions[key]? = some position := by
  rw [keyViolations, List.append_eq_nil_iff, flatMap_zipIdx_eq_nil_iff]
  simp [getElem?_keys]

theorem indexViolations_eq_nil_iff (t : Table) : t.indexViolations = [] ↔
    ∀ (position : Nat) (r : Procedure), t.records[position]? = some r →
      r.index = position + 1 := by
  rw [indexViolations, flatMap_zipIdx_eq_nil_iff]
  simp

theorem nullViolations_eq_nil_iff (t : Table) : t.nullViolations = [] ↔ Key.null ∉ t.keys := by
  simp [nullViolations, keys, Key.isNull_iff]

theorem capabilityViolations_eq_nil_iff (t : Table) : t.capabilityViolations = [] ↔
    ∀ r ∈ t.records, ∀ c ∈ r.capabilities.caps, c.Valid := by
  simp only [capabilityViolations, List.flatMap_eq_nil_iff, Capability.Valid]
  constructor
  · intro clean r member c held
    have fine := clean r member c held
    split at fine
    next => cases fine
    next valid => exact valid
  · intro valid r member c held
    rw [valid r member c held]

theorem Sound.size_positions {t : Table} (sound : t.Sound) : t.positions.size = t.length := by
  have same : t.positions.keys.Perm t.keys := by
    refine (List.perm_ext_iff_of_nodup Std.ExtTreeMap.nodup_keys sound.nodup_keys).mpr ?_
    intro key
    rw [Std.ExtTreeMap.mem_keys, ← Std.ExtTreeMap.contains_iff_mem]
    exact sound.contains_iff key
  have length := same.length_eq
  rw [Std.ExtTreeMap.length_keys] at length
  simpa [keys, Table.length] using length

section

variable {t : Table} (found : ∀ (position : Nat) (key : Key), t.keys[position]? = some key →
  t.positions[key]? = some position)

include found

-- A map has one place for a key, so no key is listed twice.
theorem nodup_keys_of_found : t.keys.Nodup := by
  rw [List.nodup_iff_getElem?_ne_getElem?]
  intro i j before inside same
  have second := List.getElem?_eq_getElem inside
  have first := found i _ (same.trans second)
  rw [found j _ second] at first
  have equal : j = i := Option.some.inj first
  omega

-- Of as many entries as records none is left over once every record has its own.
theorem mem_keys_of_found (size : t.positions.size = t.length) {key : Key}
    (entered : key ∈ t.positions) : key ∈ t.keys := by
  have part : t.keys ⊆ t.positions.keys := by
    intro listed member
    obtain ⟨i, there⟩ := List.getElem?_of_mem member
    rw [Std.ExtTreeMap.mem_keys, Std.ExtTreeMap.mem_iff_isSome_getElem?, found i listed there]
    rfl
  have whole : t.positions.keys.length = t.keys.length := by
    rw [Std.ExtTreeMap.length_keys, size, keys, List.length_map, Table.length]
  have same : t.keys.Perm t.positions.keys :=
    (List.subperm_of_subset (nodup_keys_of_found found) part).perm_of_length_le (Nat.le_of_eq whole)
  rw [same.mem_iff, Std.ExtTreeMap.mem_keys]
  exact entered

theorem positions_of_found (size : t.positions.size = t.length) (key : Key) (position : Nat) :
    t.positions[key]? = some position ↔ t.keys[position]? = some key := by
  constructor
  · intro entry
    have entered : key ∈ t.positions := by
      rw [Std.ExtTreeMap.mem_iff_isSome_getElem?, entry]
      rfl
    obtain ⟨i, listed⟩ := List.getElem?_of_mem (mem_keys_of_found found size entered)
    have there := found i key listed
    rw [entry] at there
    rw [Option.some.inj there]
    exact listed
  · exact found position key

end

end Table

namespace FrameStack

theorem violationsFrom_eq_nil_iff (depth : Nat) (below : Option Key) (frames : List Frame) :
    violationsFrom depth below frames = [] ↔
      (∀ (i : Nat) (f : Frame), frames[i]? = some f → f.depth = depth + i) ∧
      (∀ f : Frame, frames[0]? = some f → f.caller = below) ∧
      ∀ (i : Nat) (f g : Frame), frames[i]? = some f → frames[i + 1]? = some g →
        g.caller = some f.callee := by
  induction frames generalizing depth below with
  | nil => simp [violationsFrom]
  | cons frame frames ih =>
    simp only [violationsFrom, List.append_eq_nil_iff, ih, ite_eq_left_iff, reduceCtorEq, imp_false,
      Classical.not_not]
    constructor
    · rintro ⟨⟨level, called⟩, depths, next, inner⟩
      refine ⟨?_, ?_, ?_⟩
      · intro i f there
        cases i with
        | zero =>
          cases there
          exact level
        | succ i =>
          have deeper := depths i f there
          omega
      · intro f there
        cases there
        exact called
      · intro i f g there above
        cases i with
        | zero =>
          cases there
          exact next g above
        | succ i => exact inner i f g there above
    · rintro ⟨depths, outermost, inner⟩
      refine ⟨⟨depths 0 frame rfl, outermost frame rfl⟩, ?_, ?_, ?_⟩
      · intro i f there
        have deeper := depths (i + 1) f there
        omega
      · intro f there
        exact inner 0 frame f rfl there
      · intro i f g there above
        exact inner (i + 1) f g there above

theorem violations_eq_nil_iff (s : FrameStack) : s.violations = [] ↔ s.Disciplined := by
  rw [violations, violationsFrom_eq_nil_iff]
  simp only [Nat.zero_add]
  exact ⟨fun ⟨depth, outermost, inner⟩ => ⟨depth, outermost, inner⟩,
    fun ⟨depth, outermost, inner⟩ => ⟨depth, outermost, inner⟩⟩

end FrameStack

theorem Kernel.Sound.violations_eq_nil {k : Kernel} (sound : k.Sound) : k.violations = [] := by
  obtain ⟨table, frames⟩ := sound
  have keys := k.table.keyViolations_eq_nil_iff.mpr
    ⟨table.size_positions, fun position key => (table.positions key position).mpr⟩
  have indices := k.table.indexViolations_eq_nil_iff.mpr table.index
  have nulls := k.table.nullViolations_eq_nil_iff.mpr table.null_not_mem
  have capabilities := k.table.capabilityViolations_eq_nil_iff.mpr table.valid
  have stack := k.frames.violations_eq_nil_iff.mpr frames
  simp [violations, keys, indices, nulls, capabilities, stack]

/-- Entries left over in the map and keys listed twice are found although the map is never walked
and no two keys are compared. -/
theorem Kernel.checker_exact (k : Kernel) : k.violations = [] ↔ k.Sound := by
  constructor
  · intro clean
    simp only [violations, List.append_eq_nil_iff, Table.keyViolations_eq_nil_iff,
      Table.indexViolations_eq_nil_iff, Table.nullViolations_eq_nil_iff,
      Table.capabilityViolations_eq_nil_iff, FrameStack.violations_eq_nil_iff] at clean
    obtain ⟨⟨⟨⟨⟨size, found⟩, index⟩, named⟩, valid⟩, frames⟩ := clean
    have table : k.table.Sound := {
      nodup_keys := Table.nodup_keys_of_found found
      null_not_mem := named
      positions := Table.positions_of_found found size
      index := index
      valid := valid }
    exact ⟨table, frames⟩
  · exact Kernel.Sound.violations_eq_nil

end RefMonitor
