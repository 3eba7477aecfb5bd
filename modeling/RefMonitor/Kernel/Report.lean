import RefMonitor.Kernel.Journal
import RefMonitor.Log

set_option autoImplicit false

namespace RefMonitor

def Refusal.records (caller : Key) (s : Syscall) : Refusal → List LogRecord
  | .unknownCaller =>
    [⟨.warn, s!"[SYSCALL] {s.operation} from unknown procedure " ++ quoted caller.name⟩]
  | .malformed => []
  | .protectedEntry => [⟨.warn, s!"[SYSCALL] delete: {target} is the entry procedure"⟩]
  | .unregistered => [⟨.warn, s!"[SYSCALL] {verb}: {target} not registered"⟩]
  | .alreadyRegistered => [⟨.warn, s!"[SYSCALL] register: {target} already registered"⟩]
  | .denied reason =>
    [⟨.warn, s!"[SYSCALL] {s.operation} denied for {caller}: " ++ reason.message⟩]
where
  target : Key := s.target?.getD .null
  verb : String := match s with
    | .delete _ => "delete"
    | _ => "call"

def Syscall.record (caller : Key) : Syscall → LogRecord
  | .write address value => ⟨.trace, s!"[SYSCALL] write {address} <- {value}"⟩
  | .log topics data => ⟨.trace, s!"[SYSCALL] log {topics.length} topics, {data.length} bytes"⟩
  | .call target selector _ =>
    ⟨.trace, s!"[SYSCALL] call {caller} -> {target} " ++ selector.debugText⟩
  | .delete target => ⟨.debug, s!"[SYSCALL] {caller} deleted {target}"⟩
  | .setEntry target => ⟨.debug, s!"[SYSCALL] {caller} set entry to {target}"⟩
  | .register target location _ =>
    ⟨.debug, s!"[SYSCALL] {caller} registered {target} at {location}"⟩

def Obstacle.records (callee : Key) : Obstacle → List LogRecord
  | .unregistered => []
  | .noModule location =>
    [⟨.warn, s!"[FRAME] no module deployed for {callee} at {location}"⟩]
  | .tooDeep limit => [⟨.warn, s!"[FRAME] call to {callee} exceeds depth {limit}"⟩]

namespace Moment

def records : Moment → List LogRecord
  | .registered key index count =>
    [⟨.info, s!"[BOOT] registered {key} #{index} with {count} capabilities"⟩]
  | .appointed key location => [⟨.info, s!"[BOOT] entry procedure {key} at {location}"⟩]
  | .unanswered none => [⟨.warn, "[INVOKE] no target and no entry procedure"⟩]
  | .unanswered (some target) => [⟨.warn, s!"[INVOKE] {target} is not registered"⟩]
  | .attempted _ caller request verdict =>
    let dispatched := ⟨.debug, s!"[SYSCALL] {caller} -> {request.operation}"⟩
    match verdict with
    | .ok () => [dispatched, request.record caller]
    | .error .unknownCaller => Refusal.unknownCaller.records caller request
    | .error .malformed => []
    | .error refusal => dispatched :: refusal.records caller request
  | .blocked _ callee obstacle => obstacle.records callee
  | .entered _ frame _ _ => [⟨.trace, s!"[FRAME] enter {frame.callee} depth {frame.depth}"⟩]
  | .left _ frame _ => [⟨.trace, s!"[FRAME] leave {frame.callee} depth {frame.depth}"⟩]
  | .settled .. | .asked .. | .noted .. => []

end Moment

def Run.records {α : Type} (r : Run α) : List LogRecord := r.journal.flatMap Moment.records

end RefMonitor
