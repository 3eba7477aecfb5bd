import RefMonitor.Proofs.TableInvariant

set_option autoImplicit false

namespace RefMonitor.Table

inductive Changes (t : Table) : Table → Prop where
  | kept : Changes t t
  | created {next : Table} {key : Key} {location : Location} {capabilities : List Capability}
      {index : Nat} (created : t.create key location (.ofList capabilities) = .ok (index, next)) :
      Changes t next
  | deleted {next : Table} {key : Key} {removed : Procedure}
      (deleted : t.delete key = .ok (removed, next)) : Changes t next
  | granted {next : Table} {key : Key} {c : Capability}
      (granted : t.addCapability key c = .ok next) : Changes t next

structure Intact (t : Table) : Prop where
  sound : t.Sound
  summarized : t.Summarized

variable {t next : Table}

theorem Changes.sound (changes : t.Changes next) (sound : t.Sound) : next.Sound := by
  cases changes with
  | kept => exact sound
  | created created => exact sound.create created
  | deleted deleted => exact sound.delete deleted
  | granted granted => exact sound.addCapability granted

theorem Changes.intact (changes : t.Changes next) (intact : t.Intact) : next.Intact := by
  refine ⟨changes.sound intact.sound, ?_⟩
  cases changes with
  | kept => exact intact.summarized
  | created created => exact intact.summarized.create created
  | deleted deleted => exact intact.summarized.delete intact.sound deleted
  | granted granted => exact intact.summarized.addCapability granted

theorem changes_edit (t : Table) (e : Edit) : t.Changes (t.edit e) := by
  fun_cases edit t e with
  | case1 | case3 | case5 => exact .kept
  | case2 key location capabilities index next created => exact .created created
  | case4 key removed next deleted => exact .deleted deleted
  | case6 key c next granted => exact .granted granted

theorem Intact.foldl_edit (intact : t.Intact) (edits : List Edit) :
    (edits.foldl edit t).Intact := by
  induction edits generalizing t with
  | nil => exact intact
  | cons e edits ih => exact ih ((changes_edit t e).intact intact)

theorem intact_history (edits : List Edit) : (history edits).Intact :=
  Intact.foldl_edit ⟨.empty, .empty⟩ edits

theorem Sound.eq_of_records {u : Table} (left : t.Sound) (right : u.Sound)
    (records : t.records = u.records) : t = u := by
  have keys : t.keys = u.keys := congrArg (List.map Procedure.key) records
  have positions := left.positions_congr right keys
  cases t
  cases u
  simp_all

theorem created_of_records {p : Procedure} {later : List Procedure} (sound : t.Sound)
    (grown : next.Sound) (records : next.records = t.records ++ p :: later) :
    ∃ middle : Table, t.create p.key p.location p.capabilities = .ok (p.index, middle) ∧
      middle.Sound ∧ middle.records = t.records ++ [p] := by
  have member : p ∈ next.records := by simp [records]
  have index : p.index = t.length + 1 := grown.index t.length p (by simp [records, length])
  have named := grown.named member
  have fresh : ¬ t.contains p.key = true := by
    have distinct := grown.nodup_keys
    rw [keys, records, List.map_append, List.nodup_append] at distinct
    rw [sound.contains_iff]
    intro present
    exact distinct.2.2 p.key present p.key (by simp) rfl
  have created := create_of_valid t named (grown.valid p member) p.location
  rw [if_neg fresh, ← index] at created
  exact ⟨_, created, sound.create created, rfl⟩

end RefMonitor.Table
