import RefMonitor.Proofs.Custody

set_option autoImplicit false

namespace RefMonitor.Kernel

inductive Reached (start : Kernel) : Kernel → Prop where
  | here : Reached start start
  | after {k : Kernel} {external : Option Key} {r : Run Outcome} (earlier : Reached start k)
      (started : k.Started external r) : Reached start r.kernel
  | inside {k now : Kernel} {external : Option Key} {r : Run Outcome} {m : Moment}
      (earlier : Reached start k) (started : k.Started external r) (member : m ∈ r.journal)
      (shown : m.kernel? = some now) : Reached start now

theorem enclosed_everyone {start : Kernel} (sound : start.table.Sound) (origin : Origin) :
    start.Enclosed (fun _ => True) origin where
  sound := sound
  caller _ _ _ := trivial
  target _ _ _ := trivial
  closed _ _ _ := trivial

theorem Reached.custody {start k : Kernel} (sound : start.table.Sound)
    (summarized : start.table.Summarized) (reached : start.Reached k) :
    start.Custody (fun _ => True) k := by
  induction reached with
  | here => exact .refl sound summarized fun _ _ _ => trivial
  | after earlier started ih =>
    obtain ⟨origin, -, trace⟩ := started.traced
    exact (ih.trace (enclosed_everyone sound origin) trace).1
  | inside earlier started member shown ih =>
    obtain ⟨origin, -, trace⟩ := started.traced
    exact (ih.trace (enclosed_everyone sound origin) trace).2 _ member _ shown

/-- Nobody ever holds more than one procedure held at the start, however often names are deleted and
registered again. -/
theorem authority_never_amplified {start k : Kernel} (sound : start.table.Sound)
    (summarized : start.table.Summarized) (reached : start.Reached k) {key : Key}
    {procedure : Procedure} (live : k.table.lookup key = some procedure) :
    ∃ source origin, start.table.lookup source = some origin ∧
      ∀ request, procedure.capabilities.authorize request = .ok () →
        origin.capabilities.authorize request = .ok () := by
  have custody := reached.custody sound summarized
  have present := ((custody.sound.lookup_iff key procedure).mp live).1
  obtain ⟨source, origin, -, known, within⟩ := custody.derived sound (fun _ => trivial) live
  have held := ((sound.lookup_iff source origin).mp known).1
  refine ⟨source, origin, known, ?_⟩
  intro request allowed
  exact within.authorize (custody.sound.valid procedure present)
    (custody.summarized procedure present) (summarized origin held) allowed

-- A founder that hands a part of its range down to a branch.
def founder : Key := ⟨[102], by simp, by simp⟩

def branch : Key := ⟨[98], by simp, by simp⟩

def estate : Kernel where
  table := ⟨[⟨founder, 1, .ofUInt64 7, .ofList [.write .zero (.ofUInt64 4), .register []]⟩],
    Std.ExtTreeMap.empty.insert founder 0⟩
  entry := some founder
  frames := .empty
  config := {}
  host := Host.empty.install (.ofUInt64 7) fun _ _ =>
    .syscall (.register branch (.ofUInt64 8) [.write (.ofUInt64 1) (.ofUInt64 2)]) fun outcome =>
      .done (outcome.mapError Failure.code)

theorem authority_never_amplified_estate :
    ∃ source origin, estate.table.lookup source = some origin ∧
      ∀ request, (Held.ofList [.write (.ofUInt64 1) (.ofUInt64 2)]).authorize request = .ok () →
        origin.capabilities.authorize request = .ok () := by
  have created : Table.empty.create founder (.ofUInt64 7)
      (.ofList [.write .zero (.ofUInt64 4), .register []]) = .ok (1, estate.table) := rfl
  have reached : estate.Reached (estate.invoke none ⟨0⟩ []).kernel :=
    .after .here (.invoke none ⟨0⟩ [])
  have live : (estate.invoke none ⟨0⟩ []).kernel.table.lookup branch =
      some ⟨branch, 2, .ofUInt64 8, .ofList [.write (.ofUInt64 1) (.ofUInt64 2)]⟩ := by
    decide +kernel
  have bounded := authority_never_amplified (Table.Sound.empty.create created)
    (Table.Summarized.empty.create created) reached live
  exact bounded

end RefMonitor.Kernel
