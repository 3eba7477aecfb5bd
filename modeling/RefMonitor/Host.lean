import RefMonitor.Program
import Std.Data.ExtTreeMap

set_option autoImplicit false

namespace RefMonitor

structure Event where
  topics : List Word
  data : Bytes
  deriving DecidableEq, Inhabited

structure Host where
  storage : Std.ExtTreeMap Word Word
  events : List Event
  modules : Std.ExtTreeMap Location Module
  nextLocation : UInt64

namespace Host

def empty : Host := ⟨∅, [], ∅, 0x1000⟩

instance : Inhabited Host := ⟨empty⟩

def slot (h : Host) (address : Word) : Word := h.storage.getD address .zero

def store (h : Host) (address value : Word) : Host :=
  { h with storage := h.storage.insert address value }

def emit (h : Host) (topics : List Word) (data : Bytes) : Host :=
  { h with events := h.events ++ [⟨topics, data⟩] }

def takeEvents (h : Host) : List Event × Host := (h.events, { h with events := [] })

def module? (h : Host) (location : Location) : Option Module := h.modules[location]?

def install (h : Host) (location : Location) (module : Module) : Host :=
  { h with modules := h.modules.insert location module }

def deploy (h : Host) (module : Module) : Location × Host :=
  let location := Location.ofUInt64 h.nextLocation
  (location, { h.install location module with nextLocation := h.nextLocation + 1 })

def undeploy (h : Host) (location : Location) : Bool × Host :=
  (h.modules.contains location, { h with modules := h.modules.erase location })

def slots (h : Host) : List (Word × Word) := h.storage.toList

def summary (h : Host) : String :=
  s!"MemoryHost \x7b slots: {h.storage.size}, events: {h.events.length}, " ++
    s!"modules: {h.modules.size} \x7d"

theorem slot_store (h : Host) (address value other : Word) :
    (h.store address value).slot other = if address = other then value else h.slot other := by
  simp [slot, store, Std.ExtTreeMap.getD_insert]

theorem slot_emit (h : Host) (topics : List Word) (data : Bytes) (address : Word) :
    (h.emit topics data).slot address = h.slot address := rfl

end Host

inductive Placement where
  | deploy (module : Module)
  | install (location : Location) (module : Module)
  | undeploy (location : Location)

namespace Placement

def isDeployment : Placement → Bool
  | .deploy _ => true
  | .install .. | .undeploy _ => false

def location? : Placement → Option Location
  | .deploy _ => none
  | .install location _ | .undeploy location => some location

end Placement

namespace Host

def place (h : Host) : Placement → Host
  | .deploy module => (h.deploy module).2
  | .install location module => h.install location module
  | .undeploy location => (h.undeploy location).2

def placed (placements : List Placement) : Host := placements.foldl place empty

end Host

end RefMonitor
