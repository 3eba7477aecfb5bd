import RefMonitor.Frame
import RefMonitor.Syscall

set_option autoImplicit false

namespace RefMonitor

inductive Query where
  | key
  | frame
  | slot (address : Word)
  | entry
  | procedures
  | capabilities
  deriving DecidableEq

-- A procedure that is no longer registered has no capabilities.
abbrev Query.Answer : Query → Type
  | .key => Key
  | .frame => Option Frame
  | .slot _ => Word
  | .entry => Option Key
  | .procedures => List Key
  | .capabilities => Option Held

inductive Note where
  | started (frame : Option Frame) (selector : Selector) (payload : Bytes)
  | finished (op : Operation) (outcome : Outcome)
  | reduced (op : Operation) (code : ResultCode)
  | unreadable (op : Operation) (code : ResultCode)
  | word (w : Word)
  | procedures (keys : List Key)
  | capabilities (held : Option Held)
  | entry (key : Option Key)
  | frame (frame : Option Frame)

/-- What a procedure does in one activation: each syscall and each question is followed by
whatever the answer leads to, and after finitely many of them the activation ends. -/
inductive Program where
  | done (result : ModuleResult)
  | syscall (request : Syscall) (next : Outcome → Program)
  | ask (query : Query) (next : query.Answer → Program)
  | note (remark : Note) (next : Program)

instance : Inhabited Program := ⟨.done (.ok [])⟩

-- A limitation: a module is a function, so nothing of its own lasts from one activation to another.
-- What an activation does depends only on how it is entered and on the answers it gets; a module
-- with hidden state is described one activation at a time.
abbrev Module := Selector → Bytes → Program

structure Router where
  routes : List (Selector × (Bytes → Program))

namespace Router

def empty : Router := ⟨[]⟩

def route (r : Router) (signature : String) (handler : Bytes → Program) : Router :=
  ⟨(.ofSignature signature, handler) :: r.routes⟩

def module (r : Router) : Module := fun selector payload =>
  match r.routes.lookup selector with
  | some handler => handler payload
  | none => .done (.error .unknownSelector)

end Router

namespace Payload

def ofWords (words : List Word) : Bytes := words.flatMap Word.bytes

def word? (payload : Bytes) (index : Nat) : Except ResultCode Word :=
  match Word.ofBytes? ((payload.drop (32 * index)).take 32) with
  | some w => .ok w
  | none => .error .badPayload

end Payload

end RefMonitor
