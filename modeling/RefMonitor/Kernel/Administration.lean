import RefMonitor.Kernel.Run

set_option autoImplicit false

namespace RefMonitor

namespace Kernel

def create (k : Kernel) (key : Key) (location : Location) (capabilities : List Capability) :
    Run (Except TableError Nat) :=
  match k.table.create key location (.ofList capabilities) with
  | .error e => ⟨.error e, k, []⟩
  | .ok (index, table) => ⟨.ok index, { k with table }, [.registered key index capabilities.length]⟩

def bootstrap (k : Kernel) (key : Key) (location : Location) (capabilities : List Capability) :
    Run (Except TableError Nat) :=
  let r := k.create key location capabilities
  match r.value with
  | .error _ => r
  | .ok _ => { r with
      kernel := { r.kernel with entry := some key }
      journal := r.journal ++ [.appointed key location] }

def addCapability (k : Kernel) (key : Key) (c : Capability) : Except TableError Kernel :=
  (k.table.addCapability key c).map fun table => { k with table }

end Kernel

inductive Command where
  | bootstrap (key : Key) (location : Location) (capabilities : List Capability)
  | create (key : Key) (location : Location) (capabilities : List Capability)
  | grant (key : Key) (capability : Capability)
  | invoke (target : Option Key) (selector : Selector) (payload : Bytes)
  | dispatch (caller : Key) (request : Syscall)
  | execute (caller : Key) (request : Syscall)
  -- The host stays open to whoever made the kernel, in particular to deploy modules.
  | rehost (host : Host)

namespace Kernel

def obey (k : Kernel) : Command → Run Unit
  | .bootstrap key location capabilities =>
    (k.bootstrap key location capabilities).map fun _ => ()
  | .create key location capabilities => (k.create key location capabilities).map fun _ => ()
  | .grant key c =>
    match k.addCapability key c with
    | .error _ => ⟨(), k, []⟩
    | .ok next => ⟨(), next, []⟩
  | .invoke target selector payload => (k.invoke target selector payload).map fun _ => ()
  | .dispatch caller s => (k.dispatch caller s).map fun _ => ()
  | .execute caller s => (k.execute caller s).map fun _ => ()
  | .rehost host => ⟨(), { k with host }, []⟩

def session : Kernel → List Command → Run Unit
  | k, [] => ⟨(), k, []⟩
  | k, c :: rest => ((k.obey c).kernel.session rest).after (k.obey c).journal

end Kernel

end RefMonitor
