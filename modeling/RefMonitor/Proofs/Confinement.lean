import RefMonitor.Proofs.Custody

set_option autoImplicit false

namespace RefMonitor.Kernel

/-- The procedures an invocation of `t` can come to as things stand at the start: `t` itself, and
with a caller every procedure that one of its capabilities lets it call. -/
inductive Reach (start : Kernel) (t : Key) : Key → Prop where
  | target (live : start.table.contains t = true) : Reach start t t
  | call {caller callee : Key} {procedure : Procedure} {c : Capability}
      (earlier : Reach start t caller) (found : start.table.lookup caller = some procedure)
      (held : c ∈ procedure.capabilities.caps) (kind : c.operation = .call)
      (permitted : c.permitsProcedure callee = true)
      (live : start.table.contains callee = true) : Reach start t callee

theorem enclosed_reach {start : Kernel} (sound : start.table.Sound) (t : Key) :
    start.Enclosed (start.Reach t) (.invocation t) where
  sound := sound
  caller caller nobody live := by cases nobody
  target other same live := by
    cases same
    exact .target live
  closed callee granted live := by
    obtain ⟨caller, procedure, earlier, found, c, held, kind, permitted⟩ := granted
    exact .call earlier found held kind permitted live

structure Confined (start : Kernel) (members : Key → Prop) (k : Kernel) : Prop where
  written : ∀ slot, k.host.slot slot ≠ start.host.slot slot → start.Grants members (.write slot)
  emitted : ∃ emitted, k.host.events = start.host.events ++ emitted ∧
    ∀ e ∈ emitted, start.Grants members (.log e.topics)
  deleted : ∀ key, start.table.contains key = true → k.table.contains key = false →
    start.Grants members (.delete key none)
  registered : ∀ key, start.table.contains key = false → k.table.contains key = true →
    start.Grants members (.register key [])
  replaced : ∀ key before after, start.table.lookup key = some before →
    k.table.lookup key = some after →
    after.location ≠ before.location ∨ after.capabilities ≠ before.capabilities →
    start.Grants members (.delete key none) ∧ start.Grants members (.register key [])
  redirected : k.entry ≠ start.entry → start.Grants members .setEntry
  delegated : ∀ key after, k.table.lookup key = some after →
    (∃ before, start.table.lookup key = some before ∧ after.location = before.location ∧
      after.capabilities = before.capabilities) ∨
    start.Derives members after.capabilities

theorem Custody.confined {start k : Kernel} {members : Key → Prop} (sound : start.table.Sound)
    (custody : start.Custody members k) : start.Confined members k where
  written := custody.written
  emitted := custody.emitted
  redirected := custody.redirected
  deleted key live gone := by
    rw [← custody.sound.registration?_eq_none_iff] at gone
    have old : start.table.registration? key ≠ none := by
      rw [Ne, sound.registration?_eq_none_iff, live]
      decide
    exact custody.removed key old (gone ▸ old.symm)
  registered key fresh live := by
    rw [← sound.registration?_eq_none_iff] at fresh
    have now : k.table.registration? key ≠ none := by
      rw [Ne, custody.sound.registration?_eq_none_iff, live]
      decide
    exact custody.placed key now (fresh ▸ now)
  replaced key before after old now differs := by
    have was := Table.registration?_of_lookup old
    have is := Table.registration?_of_lookup now
    have changed : k.table.registration? key ≠ start.table.registration? key := by
      rw [was, is]
      intro same
      injection same with pair
      injection pair with place held
      rcases differs with moved | granted
      · exact moved place
      · exact granted held
    exact ⟨custody.removed key (by simp [was]) changed, custody.placed key (by simp [is]) changed⟩
  delegated key after now := by
    have registered := Table.registration?_of_lookup now
    rcases custody.delegated _ _ _ registered with same | derived
    · obtain ⟨before, old, pair⟩ := Option.map_eq_some_iff.mp same
      injection pair with place held
      exact .inl ⟨before, old, place.symm, held.symm⟩
    · exact .inr derived

/-- Whatever the modules do, and wherever they fail, an invocation changes nothing that the
procedures it can come to were not allowed to change when it began; so too at every moment of it. -/
theorem invocation_confined {k : Kernel} (sound : k.table.Sound) (summarized : k.table.Summarized)
    (idle : k.frames = .empty) {target : Option Key} {t : Key} (chosen : target.or k.entry = some t)
    (selector : Selector) (payload : Bytes) :
    k.Confined (k.Reach t) (k.invoke target selector payload).kernel ∧
    ∀ m ∈ (k.invoke target selector payload).journal, ∀ now, m.kernel? = some now →
      k.Confined (k.Reach t) now := by
  have start : k.Custody (k.Reach t) k := by
    refine .refl sound summarized ?_
    intro frame member
    rw [idle] at member
    cases member
  have answers : ∀ other, target.or k.entry = some other →
      Origin.invocation t = .invocation other := by
    intro other same
    rw [chosen] at same
    cases same
    rfl
  have trace : (k.invoke target selector payload).Traced k.frames (.invocation t) k :=
    invoke_traced answers
  obtain ⟨finish, moments⟩ := start.trace (enclosed_reach sound t) trace
  refine ⟨finish.confined sound, ?_⟩
  intro m member now shown
  exact (moments m member now shown).confined sound

-- A novice that may write two slots, and a prior that may write all and cannot be called.
def novice : Key := ⟨[110], by simp, by simp⟩

def prior : Key := ⟨[112], by simp, by simp⟩

def cell : Table where
  records := [⟨novice, 1, .ofUInt64 7, .ofList [.write .zero (.ofUInt64 2), .call [novice]]⟩]
  positions := Std.ExtTreeMap.empty.insert novice 0

def cloister : Kernel where
  table := ⟨cell.records ++ [⟨prior, 2, .ofUInt64 7, .ofList [.write .zero (.ofUInt64 9)]⟩],
    cell.positions.insert prior 1⟩
  entry := some novice
  frames := .empty
  config := {}
  host := Host.empty.install (.ofUInt64 7) fun _ _ =>
    .syscall (.write (.ofUInt64 1) (.ofUInt64 5)) fun _ =>
      .syscall (.write (.ofUInt64 3) (.ofUInt64 5)) fun outcome =>
        .done (outcome.mapError Failure.code)

theorem invocation_confined_cloister :
    (cloister.invoke none ⟨0⟩ []).kernel.host.slot (.ofUInt64 1) = .ofUInt64 5 ∧
    cloister.Confined (cloister.Reach novice) (cloister.invoke none ⟨0⟩ []).kernel := by
  have first : Table.empty.create novice (.ofUInt64 7)
      (.ofList [.write .zero (.ofUInt64 2), .call [novice]]) = .ok (1, cell) := rfl
  have second : cell.create prior (.ofUInt64 7) (.ofList [.write .zero (.ofUInt64 9)]) =
      .ok (2, cloister.table) := rfl
  have sound : cloister.table.Sound := (Table.Sound.empty.create first).create second
  have summarized : cloister.table.Summarized := (Table.Summarized.empty.create first).create second
  have chosen : Option.or none cloister.entry = some novice := rfl
  have confined := invocation_confined sound summarized rfl chosen ⟨0⟩ []
  exact ⟨rfl, confined.1⟩

end RefMonitor.Kernel
