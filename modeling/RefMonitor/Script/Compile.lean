import RefMonitor.Script.Syntax

set_option autoImplicit false

namespace RefMonitor.Script

structure Context where
  selector : Selector
  payload : Bytes
  last : Bytes

private def withDepth (next : Nat → Program) : Program :=
  .ask .frame fun frame => next ((frame.map Frame.depth).getD 0)

def WordExpr.eval (c : Context) : WordExpr → (Except ResultCode Word → Program) → Program
  | .literal w, next => next (.ok w)
  | .argument index, next => next (Payload.word? c.payload index)
  | .slot address, next =>
    address.eval c fun
      | .ok w => .ask (.slot w) fun value => next (.ok value)
      | .error code => next (.error code)
  | .depth, next => withDepth fun depth => next (.ok (.ofNat depth))

def WordExpr.evalAll (c : Context) : List WordExpr → (Except ResultCode (List Word) → Program) →
    Program
  | [], next => next (.ok [])
  | e :: es, next =>
    e.eval c fun
      | .ok w => evalAll c es fun ws => next (ws.map (w :: ·))
      | .error code => next (.error code)

def BytesExpr.eval (c : Context) : BytesExpr → (Except ResultCode Bytes → Program) → Program
  | .literal bytes, next => next (.ok bytes)
  | .payload, next => next (.ok c.payload)
  | .last, next => next (.ok c.last)
  | .words es, next => WordExpr.evalAll c es fun ws => next (ws.map Payload.ofWords)

def KeyExpr.eval : KeyExpr → (Key → Program) → Program
  | .literal key, next => next key
  | .self, next => .ask .key next
  | .caller, next => .ask .frame fun frame => next ((frame.bind Frame.caller).getD .null)

def SyscallExpr.eval (c : Context) (next : Except ResultCode Syscall → Program) :
    SyscallExpr → Program
  | .write address value =>
    WordExpr.eval c address fun a => WordExpr.eval c value fun v =>
      next (do return .write (← a) (← v))
  | .log topics data =>
    WordExpr.evalAll c topics fun ts => data.eval c fun d => next (do return .log (← ts) (← d))
  | .call target selector data =>
    target.eval fun key => data.eval c fun p =>
      next (do return .call key (selector.getD c.selector) (← p))
  | .delete target => target.eval fun key => next (.ok (.delete key))
  | .setEntry target => target.eval fun key => next (.ok (.setEntry key))
  | .register target location capabilities =>
    target.eval fun key => location.eval c fun l =>
      next (do return .register key ⟨← l⟩ capabilities)

def perform (c : Context) (call : SyscallExpr) (manner : Manner) (next : Bytes → Program) :
    Program :=
  call.eval c fun
    | .error code => .note (.unreadable call.operation code) (.done (.error code))
    | .ok request => .syscall request fun outcome =>
      let remark : Note :=
        if manner.reduced then .reduced request.operation outcome.code
        else .finished request.operation outcome
      .note remark <|
        match outcome with
        | .ok data => next (if manner.reduced then [] else data)
        | .error failure =>
          if manner.tolerant then next [failure.code.value] else .done (.error failure.code)

def Action.perform (c : Context) (next : Bytes → Program) : Action → Program
  | .syscall call manner => Script.perform c call manner next
  | .read slot =>
    (WordExpr.slot slot).eval c fun
      | .ok w => .note (.word w) (next w.bytes)
      | .error code => .done (.error code)
  | .procedures => .ask .procedures fun keys => .note (.procedures keys) (next c.last)
  | .capabilities => .ask .capabilities fun held => .note (.capabilities held) (next c.last)
  | .entry => .ask .entry fun key => .note (.entry key) (next c.last)
  | .frame => .ask .frame fun frame => .note (.frame frame) (next c.last)
  | .giveBack data => data.eval c .done
  | .fail code => .done (.error code)
  | .failLast => .done (.error ⟨c.last.headD 0⟩)

def Instruction.appliesAt (i : Instruction) (depth : Nat) : Bool :=
  (match i.onlyAt with
    | some d => depth == d
    | none => true) &&
  match i.onlyBelow with
    | some d => depth < d
    | none => true

def program (c : Context) : Script → Program
  | [] => .done (.ok [])
  | i :: rest =>
    withDepth fun depth =>
      if i.appliesAt depth then
        i.action.perform c fun last => program { c with last } rest
      else program c rest

def module (script : Script) : Module := fun selector payload =>
  .ask .frame fun frame =>
    .note (.started frame selector payload) (program ⟨selector, payload, []⟩ script)

end RefMonitor.Script
