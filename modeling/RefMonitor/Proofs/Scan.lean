import RefMonitor.Proofs.Authority

set_option autoImplicit false

namespace RefMonitor

def Capability.Serves (c : Capability) : Request → Prop
  | .write address => c.operation = .write ∧ c.permitsWrite address = true
  | .log topics => c.operation = .log ∧ c.permitsLog topics = true
  | .call target => c.operation = .call ∧ c.permitsProcedure target = true
  | .delete target _ => c.operation = .delete ∧ c.permitsProcedure target = true
  | .setEntry => c.operation = .setEntry
  | .register target _ => c.operation = .register ∧ c.permitsProcedure target = true

theorem Capability.serves_iff (c : Capability) (request : Request) :
    c.Serves request ↔ c.operation = request.operation ∧ c.permits request = true := by
  cases request <;> simp [Serves, permits, Request.operation]

def Request.AimsAtEntry (request : Request) : Prop :=
  ∃ target, request = .delete target (some target)

theorem Request.strandsEntry_iff (request : Request) :
    request.strandsEntry = true ↔ request.AimsAtEntry := by
  cases request with
  | write | log | call | setEntry | register => simp [strandsEntry, AimsAtEntry]
  | delete target entry =>
    cases entry with
    | none => simp [strandsEntry, AimsAtEntry]
    | some entry =>
      simp only [strandsEntry, beq_iff_eq, AimsAtEntry, delete.injEq, Option.some.injEq]
      constructor
      · rintro rfl
        exact ⟨target, rfl, rfl⟩
      · rintro ⟨t, rfl, rfl⟩
        rfl

def Covered (caps : List Capability) (grant : Capability) : Prop :=
  ∃ c ∈ caps, grant.isSubsetOf c = true

/-- How a request is decided by reading through a list of capabilities, with no summary of it: by
the first of these reasons that there is. -/
inductive Scan (caps : List Capability) : Request → Except Denied Unit → Prop where
  | protectedTarget {request : Request} (entry : request.AimsAtEntry) :
      Scan caps request (.error .protectedTarget)
  | noCapability {request : Request} (free : ¬ request.AimsAtEntry)
      (lacking : ∀ c ∈ caps, c.operation ≠ request.operation) :
      Scan caps request (.error (.noCapability request.operation))
  | outOfScope {request : Request} (free : ¬ request.AimsAtEntry)
      (held : ∃ c ∈ caps, c.operation = request.operation)
      (outside : ∀ c ∈ caps, ¬ c.Serves request) :
      Scan caps request (.error (.outOfScope request.operation))
  | amplification {target : Key} {grants : List Capability} {i : Nat} {grant : Capability}
      (served : ∃ c ∈ caps, c.Serves (.register target grants)) (handed : grants[i]? = some grant)
      (excess : ¬ Covered caps grant)
      (least : ∀ j earlier, j < i → grants[j]? = some earlier → Covered caps earlier) :
      Scan caps (.register target grants) (.error (.amplification i))
  | allowed {request : Request} (free : ¬ request.AimsAtEntry)
      (served : ∃ c ∈ caps, c.Serves request)
      (covered : ∀ grant ∈ request.grants, Covered caps grant) : Scan caps request (.ok ())

namespace Held

theorem summarized_ofList (caps : List Capability) :
    (ofList caps).kinds = summary (ofList caps).caps := by
  rw [kinds_ofList, caps_ofList]

theorem holds_ofList_iff (caps : List Capability) (op : Operation) :
    (ofList caps).holds op = true ↔ ∃ c ∈ caps, c.operation = op := by
  simpa using holds_iff (summarized_ofList caps) op

theorem served_iff (caps : List Capability) (request : Request) :
    (∃ c ∈ caps, c.Serves request) ↔
      (ofList caps).holds request.operation = true ∧ (ofList caps).permits request = true := by
  simp [permits_iff (summarized_ofList caps), Capability.serves_iff]

theorem firstUncovered?_eq_some_iff (held : Held) (grants : List Capability) (i : Nat) :
    held.firstUncovered? grants = some i ↔
      ∃ grant, grants[i]? = some grant ∧ ¬ Covered held.caps grant ∧
        ∀ j earlier, j < i → grants[j]? = some earlier → Covered held.caps earlier := by
  have covered (grant : Capability) : Covered held.caps grant ↔ held.covers grant = true :=
    (held.covers_iff grant).symm
  simp only [firstUncovered?, List.findIdx?_eq_some_iff_getElem, covered, Bool.not_eq_true',
    List.getElem?_eq_some_iff]
  constructor
  · rintro ⟨inside, excess, least⟩
    refine ⟨grants[i], ⟨inside, rfl⟩, by simp [excess], ?_⟩
    rintro j earlier before ⟨-, rfl⟩
    simpa using least j before
  · rintro ⟨grant, ⟨inside, rfl⟩, excess, least⟩
    refine ⟨inside, by simpa using excess, ?_⟩
    intro j before
    simpa using least j _ before ⟨by omega, rfl⟩

theorem authorize_of_scan {caps : List Capability} {request : Request}
    {verdict : Except Denied Unit} (scan : Scan caps request verdict) :
    (ofList caps).authorize request = verdict := by
  cases scan with
  | protectedTarget entry =>
    rw [← request.strandsEntry_iff] at entry
    simp [authorize, entry]
  | noCapability free lacking =>
    rw [← request.strandsEntry_iff] at free
    have absent : ¬ (ofList caps).holds request.operation = true := by
      simpa [holds_ofList_iff] using lacking
    simp [authorize, free, absent]
  | outOfScope free held outside =>
    rw [← request.strandsEntry_iff] at free
    rw [← holds_ofList_iff] at held
    have unserved : ¬ ∃ c ∈ caps, c.Serves request := by simpa using outside
    have refused : ¬ (ofList caps).permits request = true := by
      rw [served_iff] at unserved
      exact fun permitted => unserved ⟨held, permitted⟩
    simp [authorize, free, held, refused]
  | @amplification target grants i grant served handed excess least =>
    obtain ⟨held, permitted⟩ := (served_iff caps _).mp served
    have first : (ofList caps).firstUncovered? grants = some i := by
      rw [firstUncovered?_eq_some_iff, caps_ofList]
      exact ⟨grant, handed, excess, least⟩
    simp [authorize, Request.strandsEntry, held, permitted, first]
  | allowed free served covered =>
    rw [← request.strandsEntry_iff, Bool.not_eq_true] at free
    rw [authorize_iff (by simp), caps_ofList]
    simp only [Capability.serves_iff] at served
    exact ⟨free, served, covered⟩

end Held

theorem Scan.total (caps : List Capability) (request : Request) :
    ∃ verdict, Scan caps request verdict := by
  by_cases entry : request.AimsAtEntry
  · exact ⟨_, .protectedTarget entry⟩
  by_cases held : ∃ c ∈ caps, c.operation = request.operation
  · by_cases served : ∃ c ∈ caps, c.Serves request
    · cases first : (Held.ofList caps).firstUncovered? request.grants with
      | none =>
        rw [Held.firstUncovered?_eq_none_iff, Held.caps_ofList] at first
        exact ⟨_, .allowed entry served first⟩
      | some i =>
        rw [Held.firstUncovered?_eq_some_iff, Held.caps_ofList] at first
        obtain ⟨grant, handed, excess, least⟩ := first
        cases request with
        | register target grants => exact ⟨_, .amplification served handed excess least⟩
        | write | log | call | delete | setEntry => cases handed
    · refine ⟨_, .outOfScope entry held ?_⟩
      intro c member serves
      exact served ⟨c, member, serves⟩
  · refine ⟨_, .noCapability entry ?_⟩
    intro c member same
    exact held ⟨c, member, same⟩

namespace Held

theorem authorize_iff_scan (caps : List Capability) :
    (∀ op, (ofList caps).holds op = true ↔ ∃ c ∈ caps, c.operation = op) ∧
    ∀ (request : Request) (verdict : Except Denied Unit),
      (ofList caps).authorize request = verdict ↔ Scan caps request verdict := by
  refine ⟨holds_ofList_iff caps, ?_⟩
  intro request verdict
  constructor
  · rintro rfl
    obtain ⟨verdict, scan⟩ := Scan.total caps request
    rwa [authorize_of_scan scan]
  · exact authorize_of_scan

example : (ofList [.register [], .log [], .call [.null]]).authorize
    (.register .null [.log [.zero], .call [], .setEntry]) = .error (.amplification 1) := by
  rfl

end Held

end RefMonitor
