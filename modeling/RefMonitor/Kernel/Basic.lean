import RefMonitor.Host
import RefMonitor.Table.Basic

set_option autoImplicit false

namespace RefMonitor

/-- The state of the monitor. The entry procedure receives invocations that name no target; it
need not exist. -/
structure Kernel where
  table : Table
  entry : Option Key
  frames : FrameStack
  config : Config
  host : Host

namespace Kernel

def ofHost (host : Host) (config : Config) : Kernel := ⟨.empty, none, .empty, config, host⟩

instance : Inhabited Kernel := ⟨ofHost .empty {}⟩

def resolve? (k : Kernel) (key : Key) : Option Location :=
  (k.table.lookup key).map Procedure.location

def answer (k : Kernel) (self : Key) : (query : Query) → query.Answer
  | .key => self
  | .frame => k.frames.current?
  | .slot address => k.host.slot address
  | .entry => k.entry
  | .procedures => k.table.keys
  | .capabilities => (k.table.lookup self).map Procedure.capabilities

def depth (k : Kernel) : Nat := (k.frames.current?.map Frame.depth).getD 0

end Kernel

inductive Refusal where
  | unknownCaller
  | malformed
  | protectedEntry
  | unregistered
  | alreadyRegistered
  | denied (reason : Denied)
  deriving DecidableEq

def Refusal.rejection : Refusal → Rejection
  | .unknownCaller => .unknownCaller
  | .malformed => .invalidArgument
  | .protectedEntry => .protectedTarget
  | .unregistered => .notFound
  | .alreadyRegistered => .duplicateKey
  | .denied .protectedTarget => .protectedTarget
  | .denied _ => .capabilityDenied

namespace Kernel

-- Deleting the entry procedure is refused whether it exists or not. A call and a deletion need
-- an existing target and a registration a new one; the entry may be set to any name.
def targetRefusal? (k : Kernel) : Syscall → Option Refusal
  | .call target _ _ => if k.table.contains target then none else some .unregistered
  | .delete target =>
    if k.entry = some target then some .protectedEntry
    else if k.table.contains target then none else some .unregistered
  | .register target _ _ => if k.table.contains target then some .alreadyRegistered else none
  | .write .. | .log .. | .setEntry _ => none

def authorize (k : Kernel) (caller : Key) (s : Syscall) : Except Refusal Unit :=
  match k.table.lookup caller with
  | none => .error .unknownCaller
  | some procedure =>
    match procedure.capabilities.authorize (s.request k.entry) with
    | .error reason => .error (.denied reason)
    | .ok () => .ok ()

def verdict (k : Kernel) (caller : Key) (s : Syscall) : Except Refusal Unit :=
  if !k.table.contains caller then .error .unknownCaller
  else if !s.wellFormed k.config then .error .malformed
  else match k.targetRefusal? s with
    | some refusal => .error refusal
    | none => k.authorize caller s

theorem authorize_ok_iff {k : Kernel} {caller : Key} {s : Syscall} :
    k.authorize caller s = .ok () ↔ ∃ procedure, k.table.lookup caller = some procedure ∧
      procedure.capabilities.authorize (s.request k.entry) = .ok () := by
  unfold authorize
  split
  next absent => simp [absent]
  next procedure found =>
    split
    next denied => simp [found, denied]
    next allowed => simp [found, allowed]

theorem verdict_ok_iff {k : Kernel} {caller : Key} {s : Syscall} :
    k.verdict caller s = .ok () ↔ k.table.contains caller = true ∧
      s.wellFormed k.config = true ∧ k.targetRefusal? s = none ∧
      ∃ procedure, k.table.lookup caller = some procedure ∧
        procedure.capabilities.authorize (s.request k.entry) = .ok () := by
  rw [← authorize_ok_iff]
  by_cases known : k.table.contains caller = true
  · by_cases formed : s.wellFormed k.config = true
    · cases refusal : k.targetRefusal? s <;> simp [verdict, known, formed, refusal]
    · simp [verdict, known, formed]
  · simp [verdict, known]

def commit (k : Kernel) : Syscall → Except Rejection Kernel
  | .write address value => .ok { k with host := k.host.store address value }
  | .log topics data => .ok { k with host := k.host.emit topics data }
  | .call .. => .ok k
  | .delete target =>
    match k.table.delete target with
    | .error _ => .error .notFound
    | .ok (_, table) => .ok { k with table }
  | .setEntry target => .ok { k with entry := some target }
  | .register target location capabilities =>
    match k.table.create target location (.ofList capabilities) with
    | .error (.duplicateKey _) => .error .duplicateKey
    | .error _ => .error .invalidArgument
    | .ok (_, table) => .ok { k with table }

inductive Commits (k : Kernel) : Syscall → Kernel → Prop where
  | write {address value : Word} :
      Commits k (.write address value) { k with host := k.host.store address value }
  | log {topics : List Word} {data : Bytes} :
      Commits k (.log topics data) { k with host := k.host.emit topics data }
  | call {target : Key} {selector : Selector} {payload : Bytes} :
      Commits k (.call target selector payload) k
  | delete {target : Key} {removed : Procedure} {table : Table}
      (deleted : k.table.delete target = .ok (removed, table)) :
      Commits k (.delete target) { k with table }
  | setEntry {target : Key} : Commits k (.setEntry target) { k with entry := some target }
  | register {target : Key} {location : Location} {capabilities : List Capability} {index : Nat}
      {table : Table}
      (created : k.table.create target location (.ofList capabilities) = .ok (index, table)) :
      Commits k (.register target location capabilities) { k with table }

theorem commits_of_commit {k next : Kernel} {s : Syscall} (h : k.commit s = .ok next) :
    k.Commits s next := by
  cases s with
  | write address value =>
    cases h
    exact .write
  | log topics data =>
    cases h
    exact .log
  | call target selector payload =>
    cases h
    exact .call
  | setEntry target =>
    cases h
    exact .setEntry
  | delete target =>
    simp only [commit] at h
    split at h
    next => cases h
    next removed table deleted =>
      cases h
      exact .delete deleted
  | register target location capabilities =>
    simp only [commit] at h
    split at h
    next => cases h
    next => cases h
    next index table created =>
      cases h
      exact .register created

theorem commit_ok {k next : Kernel} {s : Syscall} (h : k.commit s = .ok next) :
    next.frames = k.frames ∧ next.config = k.config ∧ next.host.modules = k.host.modules := by
  cases commits_of_commit h <;> exact ⟨rfl, rfl, rfl⟩

end Kernel

end RefMonitor
