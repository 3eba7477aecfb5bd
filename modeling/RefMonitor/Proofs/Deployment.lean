import Mathlib.Data.List.Induction
import RefMonitor.Host
import RefMonitor.Proofs.WordNumber

set_option autoImplicit false

namespace RefMonitor

theorem Location.ofUInt64_inj {m n : UInt64} : ofUInt64 m = ofUInt64 n ↔ m = n := by
  rw [ofUInt64, ofUInt64, mk.injEq, ← Word.toNat_inj, Word.toNat_ofUInt64, Word.toNat_ofUInt64,
    UInt64.toNat_inj]

namespace Host

def deployments (placements : List Placement) : Nat := placements.countP Placement.isDeployment

def numbered (n : Nat) : Location := .ofUInt64 (.ofNat (0x1000 + n))

theorem numbered_inj {m n : Nat} (left : m < 2 ^ 63) (right : n < 2 ^ 63) :
    numbered m = numbered n ↔ m = n := by
  rw [numbered, numbered, Location.ofUInt64_inj, ← UInt64.toNat_inj, UInt64.toNat_ofNat',
    UInt64.toNat_ofNat', Nat.mod_eq_of_lt (by omega), Nat.mod_eq_of_lt (by omega)]
  omega

section

variable (h : Host) (location other : Location) (module : Module)

theorem module?_install : (h.install location module).module? other =
    if location = other then some module else h.module? other := by
  simp [module?, install, Std.ExtTreeMap.getElem?_insert]

theorem module?_undeploy : (h.undeploy location).2.module? other =
    if location = other then none else h.module? other := by
  simp [module?, undeploy, Std.ExtTreeMap.getElem?_erase]

theorem module?_deploy : (h.deploy module).2.module? other =
    if (h.deploy module).1 = other then some module else h.module? other :=
  h.module?_install _ other module

end

theorem placed_concat (placements : List Placement) (p : Placement) :
    placed (placements ++ [p]) = (placed placements).place p := by
  rw [placed, List.foldl_append]
  rfl

theorem nextLocation_placed (placements : List Placement) :
    (placed placements).nextLocation = .ofNat (0x1000 + deployments placements) := by
  induction placements using List.reverseRecOn with
  | nil => rfl
  | append_singleton placements p ih =>
    rw [placed_concat, deployments, List.countP_append, ← deployments]
    cases p with
    | deploy module =>
      simp only [place, deploy, ih, ← UInt64.ofNat_one, ← UInt64.ofNat_add]
      rfl
    | install location module => exact ih
    | undeploy location => exact ih

theorem deploy_placed (placements : List Placement) (module : Module) :
    ((placed placements).deploy module).1 = numbered (deployments placements) := by
  rw [deploy, nextLocation_placed]
  rfl

def Installed (placements : List Placement) (location : Location) (module : Module) : Prop :=
  ∃ before after, placements = before ++ .install location module :: after ∧
    ∀ p ∈ after, p.location? ≠ some location

theorem not_installed_nil (location : Location) (module : Module) :
    ¬ Installed [] location module := by
  rintro ⟨before, after, parts, -⟩
  simp at parts

theorem installed_concat (placements : List Placement) (p : Placement) (location : Location)
    (module : Module) :
    Installed (placements ++ [p]) location module ↔
      p = .install location module ∨
        p.location? ≠ some location ∧ Installed placements location module := by
  constructor
  · rintro ⟨before, after, parts, apart⟩
    rcases List.eq_nil_or_concat after with rfl | ⟨middle, last, rfl⟩
    · exact .inl (List.singleton_inj.mp (List.append_inj' parts rfl).2)
    · rw [List.concat_eq_append, ← List.cons_append, ← List.append_assoc] at parts
      obtain ⟨rfl, last⟩ := List.append_inj' parts rfl
      obtain rfl := List.singleton_inj.mp last
      rw [List.concat_eq_append, List.forall_mem_append] at apart
      exact .inr ⟨apart.2 p (by simp), before, middle, rfl, apart.1⟩
  · rintro (rfl | ⟨elsewhere, before, after, rfl, apart⟩)
    · exact ⟨placements, [], rfl, by simp⟩
    · refine ⟨before, after ++ [p], by simp, ?_⟩
      rw [List.forall_mem_append]
      exact ⟨apart, by simpa using elsewhere⟩

theorem module?_place (h : Host) (p : Placement) {location : Location}
    (apart : p.isDeployment = true → .ofUInt64 h.nextLocation ≠ location) (module : Module) :
    (h.place p).module? location = some module ↔
      p = .install location module ∨
        p.location? ≠ some location ∧ h.module? location = some module := by
  cases p with
  | deploy other =>
    have elsewhere : (h.deploy other).1 ≠ location := apart rfl
    rw [place, module?_deploy, if_neg elsewhere]
    simp [Placement.location?]
  | install target other =>
    rw [place, module?_install]
    by_cases same : target = location <;> simp [Placement.location?, same]
  | undeploy target =>
    rw [place, module?_undeploy]
    by_cases same : target = location <;> simp [Placement.location?, same]

theorem module?_placed {placements : List Placement} {n : Nat}
    (ahead : deployments placements ≤ n) (few : n < 2 ^ 63) (module : Module) :
    (placed placements).module? (numbered n) = some module ↔
      Installed placements (numbered n) module := by
  induction placements using List.reverseRecOn with
  | nil => simp [not_installed_nil, placed, empty, module?]
  | append_singleton placements p ih =>
    rw [deployments, List.countP_append, ← deployments] at ahead
    -- The counter goes past the location it hands out.
    have apart (deploys : p.isDeployment = true) :
        .ofUInt64 (placed placements).nextLocation ≠ numbered n := by
      rw [nextLocation_placed, ← numbered, Ne, numbered_inj (by omega) few]
      simp only [List.countP_singleton, deploys, if_true] at ahead
      omega
    rw [placed_concat, installed_concat, module?_place _ p apart, ih (by omega)]

structure DeploysFresh (h : Host) (module : Module) : Prop where
  vacant : h.module? (h.deploy module).1 = none
  found : (h.deploy module).2.module? (h.deploy module).1 = some module
  kept : ∀ location other, h.module? location = some other →
    (h.deploy module).2.module? location = some other

theorem deploysFresh_iff (h : Host) (module : Module) :
    h.DeploysFresh module ↔ h.module? (h.deploy module).1 = none := by
  constructor
  · exact DeploysFresh.vacant
  · intro vacant
    refine ⟨vacant, by simp [module?_deploy], ?_⟩
    intro location other there
    rw [module?_deploy, if_neg, there]
    rintro rfl
    rw [vacant] at there
    cases there

/-- The counter that hands out locations never looks at the code, so a deployment takes a fresh one
unless a module was installed there beforehand and is still there. -/
theorem deployment_fresh_iff_uninstalled (placements : List Placement) (module : Module)
    (few : deployments placements < 2 ^ 63) :
    ((placed placements).deploy module).1 = numbered (deployments placements) ∧
    (∀ n < deployments placements, numbered n ≠ numbered (deployments placements)) ∧
    ((placed placements).DeploysFresh module ↔
      ∀ other, ¬ Installed placements (numbered (deployments placements)) other) ∧
    ∀ location, location ≠ numbered (deployments placements) →
      ((placed placements).deploy module).2.module? location =
        (placed placements).module? location := by
  refine ⟨deploy_placed placements module, ?_, ?_, ?_⟩
  · intro n earlier
    rw [Ne, numbered_inj (by omega) few]
    omega
  · rw [deploysFresh_iff, deploy_placed, Option.eq_none_iff_forall_ne_some]
    exact forall_congr' fun other => not_congr (module?_placed (Nat.le_refl _) few other)
  · intro location elsewhere
    rw [module?_deploy, deploy_placed, if_neg (Ne.symm elsewhere)]

def squatter : Module := fun _ _ => .done (.ok [0xaa])

def newcomer : Module := fun _ _ => .done (.ok [0xbb])

-- What was installed at the second location is gone by the time the counter comes to it.
def vacated : List Placement :=
  [.install (numbered 1) squatter, .deploy squatter] ++ [.undeploy (numbered 1)]

theorem deployment_fresh_iff_uninstalled_vacated :
    deployments vacated < 2 ^ 63 ∧ (placed vacated).DeploysFresh newcomer := by
  have few : deployments vacated < 2 ^ 63 := by decide
  obtain ⟨-, -, fresh, -⟩ := deployment_fresh_iff_uninstalled vacated newcomer few
  refine ⟨few, fresh.mpr ?_⟩
  intro other installed
  rcases (installed_concat ..).mp installed with removal | ⟨elsewhere, -⟩
  · cases removal
  · exact elsewhere rfl

-- A module is installed where the counter starts, and the first deployment replaces it.
def squatted : List Placement := [.install (numbered 0) squatter]

theorem squatter_replaced :
    deployments squatted < 2 ^ 63 ∧
    (placed squatted).module? (numbered 0) = some squatter ∧
    ((placed squatted).deploy newcomer).2.module? (numbered 0) = some newcomer ∧
    squatter ≠ newcomer ∧ ¬ (placed squatted).DeploysFresh newcomer := by
  have there : (placed squatted).module? (numbered 0) = some squatter := by
    rw [squatted, placed, List.foldl_cons, List.foldl_nil, place, module?_install, if_pos rfl]
  have here : ((placed squatted).deploy newcomer).1 = numbered 0 := deploy_placed squatted newcomer
  refine ⟨by decide, there, ?_, ?_, ?_⟩
  · rw [module?_deploy, if_pos here]
  · intro same
    have results := congrFun (congrFun same ⟨0⟩) []
    cases results
  · intro fresh
    have vacant := fresh.vacant
    rw [here, there] at vacant
    cases vacant

end Host

end RefMonitor
